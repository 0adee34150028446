import RenderGate.Lowering.Scope
import RenderGate.Proofs.Concrete.Runs
import RenderGate.Proofs.Concrete.Targets
import RenderGate.Proofs.Grammar.Rules

/-!
# Conformity to the grammar

A scope conforms to the grammar if the nodes that it gives stand in the role that they are asked
for.  What is asked for is a predicate on roles and nodes, `P` one level further in and `Q` one
level further out, and a layer of the grammar leads from the one to the other.  Whatever a layer
preserves thus holds of all trees that lowering gives.
-/

namespace RenderGate

open Concrete (Tree)
open TreeGrammar

namespace Concrete.Tree

/-- The runs that start at a node and the targets that it has are as the limits say. -/
structure Regular (l : Limits) (t : Tree) : Prop extends RunWithin l.run t where
  targets : l.plain → ∀ c ∈ t.targets, c.TypeFree

/-- A tree keeps to the limits everywhere. -/
def Keeps (l : Limits) (t : Tree) : Prop := ∀ u ∈ t.subtrees, Regular l u

structure Suits (l : Limits) (c : ExprContext) (t : Tree) : Prop where
  keeps : t.Keeps l
  typeFree : l.plain → c ≠ .load → t.TypeFree

theorem RunsWithin.keeps {run : ℕ} {t : Tree} (h : t.RunsWithin run) : t.Keeps ⟨run, False⟩ :=
  fun u hu => { toRunWithin := h u hu, targets := False.elim }

theorem PlainTargets.keeps {run : ℕ} {t : Tree} (h : t.PlainTargets) (hruns : t.RunsWithin run) :
    t.Keeps ⟨run, True⟩ := fun u hu => { toRunWithin := hruns u hu, targets := fun _ => h u hu }

namespace Keeps

variable {l : Limits} {t u : Tree}

theorem self (h : t.Keeps l) : t.Regular l := (Rose.forall_mem_subtrees.mp h).1

theorem child (h : t.Keeps l) (hu : u ∈ t.children) : u.Keeps l :=
  (Rose.forall_mem_subtrees.mp h).2 u hu

theorem tokens (h : t.Keeps l) (hu : u ∈ t.tokens) : u.Keeps l := h.child (List.mem_filter.mp hu).1

theorem named (h : t.Keeps l) (hu : u ∈ t.named) : u.Keeps l := h.child (List.mem_filter.mp hu).1

theorem fields (h : t.Keeps l) {name : String} (hu : u ∈ t.fields name) : u.Keeps l :=
  h.child (List.mem_filter.mp hu).1

theorem field? (h : t.Keeps l) {name : String} (hu : t.field? name = some u) : u.Keeps l :=
  h.child (List.mem_of_find?_eq_some hu)

theorem namedBeside (h : t.Keeps l) {name : String} (hu : u ∈ t.namedBeside name) : u.Keeps l :=
  h.child (List.mem_of_mem_eraseP (List.mem_filter.mp hu).1)

theorem load (h : t.Keeps l) : t.Suits l .load := ⟨h, fun _ hc => absurd rfl hc⟩

/-- What a node assigns to or deletes suits any context. -/
theorem suits (h : t.Keeps l) (hu : u ∈ t.targets) (hkeeps : u.Keeps l) (c : ExprContext) :
    u.Suits l c := ⟨hkeeps, fun hplain _ => h.self.targets hplain u hu⟩

end Keeps

theorem Suits.element {l : Limits} {c : ExprContext} {t u : Tree} (h : t.Suits l c)
    (hu : u ∈ t.elements) (hkeeps : u.Keeps l) : u.Suits l c :=
  ⟨hkeeps, fun hplain hc => (h.typeFree hplain hc).element hu⟩

end Concrete.Tree

/-- Every tree that a lowering gives has a property. -/
def Yields {α : Type} (P : α → Prop) (m : Lowered α) : Prop := ∀ a, m = .ok a → P a

namespace Yields

variable {α β : Type} {P : α → Prop} {Q : β → Prop}

theorem pure {a : α} (h : P a) : Yields P (pure a) := by
  rintro _ ⟨⟩
  exact h

theorem error {e : ParseError} : Yields P (.error e) := nofun

theorem bind {m : Lowered α} {f : α → Lowered β} (hm : Yields P m)
    (hf : ∀ a, P a → Yields Q (f a)) : Yields Q (m >>= f) := by
  cases m with
  | error e => exact error
  | ok a => exact hf a (hm a rfl)

/-- The first result does not matter. -/
theorem bind_any {m : Lowered α} {f : α → Lowered β} (hf : ∀ a, Yields Q (f a)) :
    Yields Q (m >>= f) :=
  bind (P := fun _ => True) (fun _ _ => trivial) fun a _ => hf a

theorem map {m : Lowered α} {f : α → β} (hm : Yields P m) (hf : ∀ a, P a → Q (f a)) :
    Yields Q (f <$> m) := by
  cases m with
  | error e => exact error
  | ok a => exact pure (hf a (hm a rfl))

theorem singleton {m : Lowered α} (hm : Yields P m) :
    Yields (fun as => as.length = 1 ∧ ∀ a ∈ as, P a) (List.singleton <$> m) :=
  hm.map fun _ ha => ⟨rfl, List.forall_mem_singleton.mpr ha⟩

theorem mapM {γ : Type} {ts : List γ} {f : γ → Lowered α} (hf : ∀ t ∈ ts, Yields P (f t)) :
    Yields (fun as => ∀ a ∈ as, P a) (ts.mapM f) := by
  induction ts with
  | nil => exact pure fun a ha => absurd ha List.not_mem_nil
  | cons t ts ih =>
      rw [List.mapM_cons]
      refine (hf t List.mem_cons_self).bind fun a ha => ?_
      refine (ih fun u hu => hf u (List.mem_cons_of_mem t hu)).bind fun as has => pure ?_
      exact List.forall_mem_cons.mpr ⟨ha, has⟩

theorem mapM_flatten {γ : Type} {ts : List γ} {f : γ → Lowered (List α)}
    (hf : ∀ t ∈ ts, Yields (fun as => ∀ a ∈ as, P a) (f t)) :
    Yields (fun ass => ∀ a ∈ ass.flatten, P a) (ts.mapM f) := by
  intro ass heq a ha
  obtain ⟨as, has, ha⟩ := List.mem_flatten.mp ha
  exact mapM hf ass heq as has a ha

end Yields

namespace Scope

structure Operands (P : Role → Node → Prop) (ns : List Node) : Prop where
  several : 2 ≤ ns.length
  each : ∀ n ∈ ns, P (.expression .load) n

/-- What a scope gives for trees that keep to limits stands in the role that is asked for. -/
structure Conforms (l : Limits) (P : Role → Node → Prop) (S : Scope Lowered) : Prop where
  statement : ∀ {t}, t.Keeps l → Yields (P .statement) (S.statement t)
  expression : ∀ {t} c, t.Suits l c → Yields (P (.expression c)) (S.expression c t)
  pattern : ∀ {t}, t.Keeps l → Yields (P .pattern) (S.pattern t)
  operands : ∀ {t} token, t.Keeps l → Yields (Operands P) (S.operands token t)

theorem yields_unsupported {α : Type} {P : α → Prop} {S : Scope Lowered} {t : Tree} :
    Yields P (S.unsupported t) := .error

theorem yields_field {S : Scope Lowered} {t : Tree} (name : String) :
    Yields (fun c => t.field? name = some c) (S.required t name) := by
  unfold required
  cases t.field? name with
  | none => exact yields_unsupported
  | some c => exact .pure rfl

theorem yields_head {S : Scope Lowered} {t : Tree} :
    Yields (fun c => t.named.head? = some c) (S.firstNamed t) := by
  unfold firstNamed
  cases t.named with
  | nil => exact yields_unsupported
  | cons c cs => exact .pure rfl

section children

variable {l : Limits} {S : Scope Lowered} {t : Tree} (ht : t.Keeps l)
include ht

theorem yields_required (name : String) : Yields (·.Keeps l) (S.required t name) :=
  fun _ heq => ht.field? (yields_field name _ heq)

theorem yields_firstNamed : Yields (·.Keeps l) (S.firstNamed t) :=
  fun _ heq => ht.named (List.mem_of_head? (yields_head _ heq))

end children

namespace Conforms

variable {l : Limits} {P Q : Role → Node → Prop} {S : Scope Lowered} (h : S.Conforms l P)
  (g : Layer l P Q) {t : Tree}

include h in
theorem value (ht : t.Keeps l) : Yields (P (.expression .load)) (S.expression .load t) :=
  h.expression .load ht.load

include h in
theorem expressions (c : ExprContext) {ts : List Tree} (hts : ∀ t ∈ ts, t.Suits l c) :
    Yields (fun ns => ∀ n ∈ ns, P (.expression c) n) (S.expressions c ts) :=
  .mapM fun t ht => h.expression c (hts t ht)

include h in
theorem values {ts : List Tree} (hts : ∀ t ∈ ts, t.Keeps l) :
    Yields (fun ns => ∀ n ∈ ns, P (.expression .load) n) (S.expressions .load ts) :=
  h.expressions .load fun t ht => (hts t ht).load

include h in
theorem valueIn (ht : t.Keeps l) (name : String) :
    Yields (P (.expression .load)) (S.expressionIn .load t name) :=
  (yields_required ht name).bind fun _ hc => h.value hc

include h in
theorem targetIn (c : ExprContext) (ht : t.Keeps l) {name : String}
    (hname : ∀ u, t.field? name = some u → u ∈ t.targets) :
    Yields (P (.expression c)) (S.expressionIn c t name) := by
  refine (yields_field name).bind fun u hu => ?_
  exact h.expression c (ht.suits (hname u hu) (ht.field? hu) c)

include h in
theorem statements (ht : t.Keeps l) :
    Yields (fun ns => ∀ n ∈ ns, P .statement n) (S.statements t) :=
  .mapM fun _ hc => h.statement (ht.named hc)

include h in
theorem suite (ht : t.Keeps l) (name : String) :
    Yields (fun ns => ∀ n ∈ ns, P .statement n) (S.suite t name) :=
  (yields_required ht name).bind fun _ hc => h.statements hc

include h in
theorem bind_firstValue {α : Type} {R : α → Prop} {f : Node → Lowered α} (ht : t.Keeps l)
    (hf : ∀ n, P (.expression .load) n → Yields R (f n)) :
    Yields R (S.firstNamed t >>= fun inner => S.expression .load inner >>= f) :=
  (yields_firstNamed ht).bind fun _ hi => (h.value hi).bind hf

include h g

theorem oneOrTuple {ts : List Tree} (hts : ∀ t ∈ ts, t.Keeps l) :
    Yields (Fits (inside P Q) [.expression .load, .group]) (S.oneOrTuple .load ts) := by
  have htuple : Yields (Fits (inside P Q) [.expression .load, .group])
      (do return display .tuple (← S.expressions .load ts) .load) :=
    (h.values hts).bind fun ns hns =>
      .pure (.cons (.only (g.node .group (.values hns (.use g .load)))))
  rcases ts with _ | ⟨t, _ | ⟨u, ts⟩⟩
  · exact htuple
  · exact fun n hn => .head (h.value (hts t List.mem_cons_self) n hn)
  · exact htuple

end Conforms

end Scope

end RenderGate
