import RenderGate.Lowering.Module
import RenderGate.Proofs.Concrete.Outline

/-!
# Agreement of two lowerings

Two lowerings of trees that look alike are compared step by step.  They may run in different monads:
an accord says which of their results agree, and it passes through every way in which lowering steps
are put together.  So two scopes that agree one level further in agree one level further out.
-/

namespace RenderGate

open Concrete (Source Tree)

structure Accord (m m' : Type → Type) [Monad m] [Monad m'] [LawfulMonad m] [LawfulMonad m'] where
  Rel : {α β : Type} → (α → β → Prop) → m α → m' β → Prop
  pure : ∀ {α β : Type} {R : α → β → Prop} {a b}, R a b → Rel R (pure a) (pure b)
  bind : ∀ {α β γ δ : Type} {R : α → β → Prop} {P : γ → δ → Prop} {x : m α} {y : m' β}
    {f : α → m γ} {g : β → m' δ}, Rel R x y → (∀ a b, R a b → Rel P (f a) (g b)) →
      Rel P (x >>= f) (y >>= g)

def Agree {m m' : Type → Type} [Monad m] [Monad m'] [LawfulMonad m] [LawfulMonad m']
    (A : Accord m m') {α β : Type} (R : α → β → Prop) (x : m α) (y : m' β) : Prop := A.Rel R x y

namespace Agree

variable {m m' : Type → Type} [Monad m] [Monad m'] [LawfulMonad m] [LawfulMonad m']
  {A : Accord m m'} {α β γ δ : Type} {R : α → β → Prop} {P : γ → δ → Prop}

theorem pure {a : α} {b : β} (h : R a b) : Agree A R (pure a) (pure b) := A.pure h

theorem bind {x : m α} {y : m' β} {f : α → m γ} {g : β → m' δ} (h : Agree A R x y)
    (hf : ∀ a b, R a b → Agree A P (f a) (g b)) : Agree A P (x >>= f) (y >>= g) := A.bind h hf

/-- The common case: the first results are equal. -/
theorem bind_eq {x : m α} {y : m' α} {f : α → m γ} {g : α → m' δ} (h : Agree A Eq x y)
    (hf : ∀ a, Agree A P (f a) (g a)) : Agree A P (x >>= f) (y >>= g) := by
  refine h.bind fun a b hab => ?_
  rw [hab]
  exact hf b

theorem map {x : m α} {y : m' β} {f : α → γ} {g : β → δ} (h : Agree A R x y)
    (hf : ∀ a b, R a b → P (f a) (g b)) : Agree A P (f <$> x) (g <$> y) := by
  rw [map_eq_pure_bind, map_eq_pure_bind]
  exact h.bind fun a b hab => .pure (hf a b hab)

theorem map_eq {x : m α} {y : m' α} (f : α → γ) (h : Agree A Eq x y) :
    Agree A Eq (f <$> x) (f <$> y) :=
  h.map fun _ _ hab => by rw [hab]

/-- The elements of two related lists are lowered one after the other. -/
theorem mapM_mem {ts : List γ} {us : List δ} {f : γ → m α} {g : δ → m' α}
    (h : List.Forall₂ P ts us) (hf : ∀ t u, t ∈ ts → P t u → Agree A Eq (f t) (g u)) :
    Agree A Eq (ts.mapM f) (us.mapM g) := by
  induction h with
  | nil =>
      rw [List.mapM_nil, List.mapM_nil]
      exact .pure rfl
  | cons htu _ ih =>
      rw [List.mapM_cons, List.mapM_cons]
      refine (hf _ _ List.mem_cons_self htu).bind_eq fun a => ?_
      exact (ih fun t u ht => hf t u (List.mem_cons_of_mem _ ht)).bind_eq fun as => .pure rfl

theorem mapM {ts : List γ} {us : List δ} {f : γ → m α} {g : δ → m' α}
    (h : List.Forall₂ P ts us) (hf : ∀ t u, P t u → Agree A Eq (f t) (g u)) :
    Agree A Eq (ts.mapM f) (us.mapM g) :=
  mapM_mem h fun t u _ => hf t u

end Agree

/-- Trees over two texts that look alike to every step of two lowerings, which agree where a node
has a fault of its own. -/
structure Likeness (s s' : Source) (m m' : Type → Type) [Monad m] [Monad m'] [LawfulMonad m]
    [LawfulMonad m'] [MonadExcept ParseError m] [MonadExcept ParseError m'] extends
    Accord m m' where
  Like : Tree → Tree → Prop
  kind : ∀ {t t'}, Like t t' → t.kind = t'.kind
  isNamed : ∀ {t t'}, Like t t' → t.info.named = t'.info.named
  role : ∀ {t t'}, Like t t' → t.info.field = t'.info.field
  tokens : ∀ {t t'}, Like t t' → List.Forall₂ Like t.tokens t'.tokens
  fields : ∀ {t t'}, Like t t' → ∀ name, List.Forall₂ Like (t.fields name) (t'.fields name)
  namedBeside : ∀ {t t'}, Like t t' → ∀ name,
    List.Forall₂ Like (t.namedBeside name) (t'.namedBeside name)
  spelled : ∀ {t t'}, Like t t' → t.spellings.map s.slice? = t'.spellings.map s'.slice?
  prefixed : ∀ {t t'}, Like t t' → t.openings.map s.prefix? = t'.openings.map s'.prefix?
  fault : ∀ {t t'} {α β : Type} {R : α → β → Prop}, Like t t' → ∀ f : Fault,
    (∀ limit, f ≠ .tooDeep limit) →
      Rel R (throw (.fault f (s.startOf t))) (throw (.fault f (s'.startOf t')))

namespace Likeness

variable {m m' : Type → Type} [Monad m] [Monad m'] [LawfulMonad m] [LawfulMonad m']
  [MonadExcept ParseError m] [MonadExcept ParseError m'] {s s' : Source} (L : Likeness s s' m m')
  {t t' : Tree}

theorem named (h : L.Like t t') : List.Forall₂ L.Like t.named t'.named := by
  rw [Tree.named_eq_filter_tokens, Tree.named_eq_filter_tokens]
  exact forall₂_filter (L.tokens h) fun _ _ hc => L.isNamed hc

theorem field? (h : L.Like t t') (name : String) :
    Option.Rel L.Like (t.field? name) (t'.field? name) := by
  rw [Tree.field?_eq_head?, Tree.field?_eq_head?]
  exact rel_head? (L.fields h name)

/-- A role is filled in both trees, by children that look alike, or in neither. -/
theorem field?_cases (h : L.Like t t') (name : String) :
    (t.field? name = none ∧ t'.field? name = none) ∨
      ∃ c c', t.field? name = some c ∧ t'.field? name = some c' ∧ L.Like c c' :=
  rel_cases (L.field? h name)

theorem filter_kind {ts us : List Tree} (h : List.Forall₂ L.Like ts us) (p : String → Bool) :
    List.Forall₂ L.Like (ts.filter fun (c : Tree) => p c.kind)
      (us.filter fun (c : Tree) => p c.kind) :=
  forall₂_filter h fun _ _ hc => by rw [L.kind hc]

theorem any_eq {ts us : List Tree} {p q : Tree → Bool} (h : List.Forall₂ L.Like ts us)
    (hpq : ∀ t u, L.Like t u → p t = q u) : ts.any p = us.any q := by
  induction h with
  | nil => rfl
  | cons hc _ ih => rw [List.any_cons, List.any_cons, hpq _ _ hc, ih]

theorem any_kind {ts us : List Tree} (h : List.Forall₂ L.Like ts us) (p : String → Bool) :
    (ts.any fun (c : Tree) => p c.kind) = us.any fun (c : Tree) => p c.kind :=
  L.any_eq h fun _ _ hc => by rw [L.kind hc]

theorem flatMap_named {ts us : List Tree} (h : List.Forall₂ L.Like ts us) :
    List.Forall₂ L.Like (ts.flatMap Tree.named) (us.flatMap Tree.named) := by
  induction h with
  | nil => exact .nil
  | cons hc _ ih =>
      rw [List.flatMap_cons, List.flatMap_cons]
      exact List.rel_append (L.named hc) ih

theorem hasToken (h : L.Like t t') (kind : String) : t.hasToken kind = t'.hasToken kind :=
  L.any_eq (L.tokens h) fun _ _ hc => by rw [L.isNamed hc, L.kind hc]

theorem opening? (h : L.Like t t') : Option.Rel L.Like t.opening? t'.opening? :=
  rel_find? (L.tokens h) fun _ _ hc => by rw [L.kind hc]

theorem firstNamed? (h : L.Like t t') : Option.Rel L.Like t.named.head? t'.named.head? :=
  rel_head? (L.named h)

/-- The parts of two strings that look alike have the same prefixes. -/
theorem stringParts (h : L.Like t t') (hk : t.kind = "string" ∨ t.kind = "concatenated_string") :
    List.Forall₂ (fun c c' => L.Like c c' ∧ c.opening?.map s.prefix? = c'.opening?.map s'.prefix?)
      (Scope.stringParts t) (Scope.stringParts t') := by
  have hs := L.prefixed h
  unfold Tree.openings at hs
  unfold Scope.stringParts
  rw [← L.kind h] at hs ⊢
  rcases hk with hk | hk
  · simp only [hk] at hs ⊢
    exact .cons ⟨h, map_eq_of_toList hs⟩ .nil
  · simp only [hk] at hs ⊢
    exact forall₂_filterMap (L.named h)
      (fun _ _ hc => isSome_eq_of_rel (L.opening? hc)) hs

theorem slice_identifier (h : L.Like t t')
    (hk : t.kind = "identifier" ∨ t.kind = "keyword_identifier") : s.slice? t = s'.slice? t' := by
  have hs := L.spelled h
  rcases hk with hk | hk
  all_goals
    simp only [Tree.spellings, ← L.kind h, hk] at hs
    exact (List.cons.inj hs).1

end Likeness

/-- Two scopes lower what looks alike to results that agree. -/
structure Scope.Agrees {m m' : Type → Type} [Monad m] [Monad m'] [LawfulMonad m] [LawfulMonad m']
    [MonadExcept ParseError m] [MonadExcept ParseError m'] {s s' : Source} (L : Likeness s s' m m')
    (S : Scope m) (S' : Scope m') : Prop where
  source : S.source = s
  source' : S'.source = s'
  statement : ∀ {t t'}, L.Like t t' →
    Agree L.toAccord Eq (S.statement t) (S'.statement t')
  expression : ∀ {t t'} (context : ExprContext), L.Like t t' →
    Agree L.toAccord Eq (S.expression context t) (S'.expression context t')
  pattern : ∀ {t t'}, L.Like t t' → Agree L.toAccord Eq (S.pattern t) (S'.pattern t')
  operands : ∀ {t t'} (token : String), L.Like t t' →
    Agree L.toAccord Eq (S.operands token t) (S'.operands token t')

namespace Scope.Agrees

variable {m m' : Type → Type} [Monad m] [Monad m'] [LawfulMonad m] [LawfulMonad m']
  [MonadExcept ParseError m] [MonadExcept ParseError m'] {s s' : Source} {L : Likeness s s' m m'}
  {S : Scope m} {S' : Scope m'} (h : S.Agrees L S') {t t' : Tree} {α : Type}
include h

theorem faultAt {β : Type} {R : α → β → Prop} (ht : L.Like t t') (f : Fault)
    (hf : ∀ limit, f ≠ .tooDeep limit) :
    Agree L.toAccord R (throw (S.faultAt f t)) (throw (S'.faultAt f t')) := by
  unfold Scope.faultAt
  rw [h.source, h.source']
  exact L.fault ht f hf

theorem unsupported {β : Type} {R : α → β → Prop} (ht : L.Like t t') :
    Agree L.toAccord R (S.unsupported t) (S'.unsupported t') := by
  unfold Scope.unsupported
  rw [L.kind ht]
  exact h.faultAt ht _ nofun

theorem required (ht : L.Like t t') (name : String) :
    Agree L.toAccord L.Like (S.required t name) (S'.required t' name) := by
  unfold Scope.required
  rcases L.field?_cases ht name with ⟨h₁, h₂⟩ | ⟨c, c', h₁, h₂, hc⟩
  · rw [h₁, h₂]
    exact h.unsupported ht
  · rw [h₁, h₂]
    exact .pure hc

theorem firstNamed (ht : L.Like t t') :
    Agree L.toAccord L.Like (S.firstNamed t) (S'.firstNamed t') := by
  unfold Scope.firstNamed
  have hnamed := L.named ht
  generalize t.named = ts at hnamed ⊢
  generalize t'.named = us at hnamed ⊢
  cases hnamed with
  | nil => exact h.unsupported ht
  | cons hc _ => exact .pure hc

/-- What is taken from the texts of two nodes agrees if it does so for the characters that they
cover. -/
theorem text_map {β : Type} {f : String → β} (ht : L.Like t t')
    (hs : (s.slice? t).map f = (s'.slice? t').map f) :
    Agree L.toAccord (fun a b => f a = f b) (S.text t) (S'.text t') := by
  have hfault := h.faultAt (R := fun a b => f a = f b) ht (.malformed "invalid utf-8") nofun
  unfold Scope.text
  rw [h.source, h.source']
  cases h₁ : s.slice? t with
  | none =>
      cases h₂ : s'.slice? t' with
      | none => exact hfault
      | some text' => exact absurd hs (by rw [h₁, h₂]; exact nofun)
  | some text =>
      cases h₂ : s'.slice? t' with
      | none => exact absurd hs (by rw [h₁, h₂]; exact nofun)
      | some text' =>
          rw [h₁, h₂, Option.map_some, Option.map_some, Option.some.injEq] at hs
          exact .pure hs

/-- The texts of two nodes agree if both cover the same characters. -/
theorem text (ht : L.Like t t') (hs : s.slice? t = s'.slice? t') :
    Agree L.toAccord Eq (S.text t) (S'.text t') :=
  h.text_map ht (f := id) (by rw [hs])

theorem name (context : ExprContext) (ht : L.Like t t') (hs : s.slice? t = s'.slice? t') :
    Agree L.toAccord Eq (S.name context t) (S'.name context t') :=
  (h.text ht hs).bind_eq fun _ => .pure rfl

theorem expressionIn (context : ExprContext) (ht : L.Like t t') (name : String) :
    Agree L.toAccord Eq (S.expressionIn context t name) (S'.expressionIn context t' name) :=
  (h.required ht name).bind fun _ _ hc => h.expression context hc

theorem expressions {ts us : List Tree} (context : ExprContext) (hts : List.Forall₂ L.Like ts us) :
    Agree L.toAccord Eq (S.expressions context ts) (S'.expressions context us) :=
  .mapM hts fun _ _ hc => h.expression context hc

theorem oneOrTuple {ts us : List Tree} (context : ExprContext) (hts : List.Forall₂ L.Like ts us) :
    Agree L.toAccord Eq (S.oneOrTuple context ts) (S'.oneOrTuple context us) := by
  cases hts with
  | nil => exact (h.expressions context .nil).bind_eq fun _ => .pure rfl
  | cons hc hcs =>
      cases hcs with
      | nil => exact h.expression context hc
      | cons hd hds =>
          exact (h.expressions context (.cons hc (.cons hd hds))).bind_eq fun _ => .pure rfl

theorem statements (ht : L.Like t t') :
    Agree L.toAccord Eq (S.statements t) (S'.statements t') :=
  .mapM (L.named ht) fun _ _ hc => h.statement hc

theorem suite (ht : L.Like t t') (name : String) :
    Agree L.toAccord Eq (S.suite t name) (S'.suite t' name) :=
  (h.required ht name).bind fun _ _ hc => h.statements hc

end Scope.Agrees

end RenderGate
