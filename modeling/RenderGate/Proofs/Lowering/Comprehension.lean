import RenderGate.Proofs.Lowering.Acceptance

/-!
# Comprehensions

A comprehension has a body and clauses, each of which is a loop or a condition.  It is accepted just
if the clauses fall into groups, a loop with the conditions that stand between it and the next loop,
and each group gives one node (`Loops`).  So a clause that belongs to no group is refused: a
condition before the first loop, and whatever is neither a loop nor a condition.
-/

namespace RenderGate

open Concrete (Source Tree)

def comprehensionKinds : List (String × Kind) :=
  [("list_comprehension", .listComp), ("set_comprehension", .setComp),
    ("dictionary_comprehension", .dictComp), ("generator_expression", .generatorExp)]

/-- What the body of a comprehension gives: a key and a value, or one expression. -/
inductive BodyValue (gives : Tree → Node → Prop) : Tree → List Node → Prop
  | pair {body key value : Tree} {k v : Node} (hkind : body.kind = "pair")
      (hkey : body.field? "key" = some key) (hvalue : body.field? "value" = some value)
      (hk : gives key k) (hv : gives value v) : BodyValue gives body [k, v]
  | single {body : Tree} {n : Node} (hkind : body.kind ≠ "pair") (h : gives body n) :
      BodyValue gives body [n]

structure ConditionValue (gives : Tree → Node → Prop) (clause : Tree) (n : Node) : Prop where
  kind : clause.kind = "if_clause"
  gives : ∃ condition, clause.named.head? = some condition ∧ gives condition n

structure LoopValue (gives : ExprContext → Tree → Node → Prop) (clause : Tree)
    (target iterable : Node) : Prop where
  kind : clause.kind = "for_in_clause"
  target : ∃ left, clause.field? "left" = some left ∧ gives .store left target
  iterable : SlotValue Node.tupled (gives .load) (clause.fields "right") iterable

/-- What the clauses of a comprehension give: one node for each loop, which holds the conditions
between it and the next loop. -/
inductive Loops (gives : ExprContext → Tree → Node → Prop) : List Tree → List Node → Prop
  | nil : Loops gives [] []
  | cons {clause : Tree} {target iterable : Node} {conditions rest : List Tree}
      {values loops : List Node} (hloop : LoopValue gives clause target iterable)
      (hconditions : List.Forall₂ (ConditionValue (gives .load)) conditions values)
      (hrest : Loops gives rest loops) :
      Loops gives (clause :: conditions ++ rest)
        (.of .comprehension (target :: iterable :: values) :: loops)

/-- A clause that belongs to no loop: a condition with no clause before it, or no clause of a
comprehension at all. -/
inductive Misplaced (before : List Tree) (clause : Tree) : Prop
  | condition (hkind : clause.kind = "if_clause") (hfirst : before = [])
  | other (hfor : clause.kind ≠ "for_in_clause") (hif : clause.kind ≠ "if_clause")

/-- Nothing is refused in a comprehension before a clause: its body is accepted, and so are the
clauses before that one and, if it is a condition, its own expression. -/
structure Reaches (gives : ExprContext → Tree → Node → Prop) (t : Tree) (before : List Tree)
    (clause : Tree) : Prop where
  body : ∃ body values, t.field? "body" = some body ∧ BodyValue (gives .load) body values
  before : ∃ loops, Loops gives before loops
  condition : clause.kind = "if_clause" → ∃ n, ConditionValue (gives .load) clause n

namespace Loops

variable {gives : ExprContext → Tree → Node → Prop} {clauses : List Tree} {loops : List Node}

theorem kind_of_mem (h : Loops gives clauses loops) {clause : Tree} (hclause : clause ∈ clauses) :
    clause.kind = "for_in_clause" ∨ clause.kind = "if_clause" := by
  induction h with
  | nil => exact absurd hclause List.not_mem_nil
  | cons hloop hconditions _ ih =>
      rcases List.mem_append.mp hclause with hgroup | hrest
      · rcases List.mem_cons.mp hgroup with rfl | hcondition
        · exact .inl hloop.kind
        · have hkinds := (List.forall₂_and_left (p := fun c : Tree => c.kind = "if_clause") _ _).mp
            (hconditions.imp fun _ _ hvalue => And.intro hvalue.kind hvalue)
          exact .inr (hkinds.1 _ hcondition)
      · exact ih hrest

theorem not_misplaced {before after : List Tree} {clause : Tree}
    (h : Loops gives (before ++ clause :: after) loops) : ¬ Misplaced before clause := by
  rintro (⟨hkind, rfl⟩ | ⟨hfor, hif⟩)
  · rw [List.nil_append] at h
    generalize hclauses : clause :: after = clauses at h
    cases h with
    | nil => exact absurd hclauses (List.cons_ne_nil _ _)
    | cons hloop _ _ =>
        rw [(List.cons.inj hclauses).1, hloop.kind] at hkind
        exact absurd hkind (by decide)
  · rcases h.kind_of_mem (List.mem_append_right before List.mem_cons_self) with hkind | hkind
    · exact hfor hkind
    · exact hif hkind

end Loops

namespace Scope

open Lowered

variable {S : Scope Lowered} {t clause : Tree}

theorem comprehensionBody_eq_ok_iff {ns : List Node} :
    S.comprehensionBody t = .ok ns ↔ BodyValue (S.Gives (.expression .load)) t ns := by
  unfold comprehensionBody
  split
  · rename_i hkind
    simp only [bind_eq_ok_iff, pure_eq_ok_iff, expressionIn_eq_ok_iff]
    constructor
    · rintro ⟨k, ⟨key, hkey, hk⟩, v, ⟨value, hvalue, hv⟩, rfl⟩
      exact .pair hkind hkey hvalue hk hv
    · rintro (⟨-, hkey, hvalue, hk, hv⟩ | ⟨hne, -⟩)
      · exact ⟨_, ⟨_, hkey, hk⟩, _, ⟨_, hvalue, hv⟩, rfl⟩
      · exact absurd hkind hne
  · rename_i hkind
    simp only [bind_eq_ok_iff, pure_eq_ok_iff]
    constructor
    · rintro ⟨n, hn, rfl⟩
      exact .single hkind hn
    · rintro (⟨hpair, -, -, -, -⟩ | ⟨-, hn⟩)
      · exact absurd hpair hkind
      · exact ⟨_, hn, rfl⟩

section clauses

variable {current : Option (List Node)} {clauses : List Tree}

theorem comprehensionClauses_loop (hkind : clause.kind = "for_in_clause") :
    S.comprehensionClauses current (clause :: clauses) = (do
      let target ← S.expressionIn .store clause "left"
      let iterable ← S.oneOrTuple .load (clause.fields "right")
      return comprehensionClauses.closed current ++
        (← S.comprehensionClauses (some [target, iterable]) clauses)) := by
  rw [comprehensionClauses, hkind]
  rfl

theorem comprehensionClauses_condition (hkind : clause.kind = "if_clause") :
    S.comprehensionClauses current (clause :: clauses) = (do
      let condition ← S.expression .load (← S.firstNamed clause)
      match current with
      | some parts => S.comprehensionClauses (some (parts ++ [condition])) clauses
      | none => S.unsupported clause) := by
  rw [comprehensionClauses, hkind]
  rfl

theorem comprehensionClauses_other (hfor : clause.kind ≠ "for_in_clause")
    (hif : clause.kind ≠ "if_clause") :
    S.comprehensionClauses current (clause :: clauses) = S.unsupported clause := by
  rw [comprehensionClauses]
  split
  · contradiction
  · contradiction
  · rfl

/-- Conditions go to the loop that is open. -/
theorem comprehensionClauses_conditions {parts : List Node} {conditions : List Tree}
    {values : List Node}
    (h : List.Forall₂ (ConditionValue (S.Gives (.expression .load))) conditions values) :
    S.comprehensionClauses (some parts) (conditions ++ clauses) =
      S.comprehensionClauses (some (parts ++ values)) clauses := by
  induction h generalizing parts with
  | nil => rw [List.nil_append, List.append_nil]
  | cons hvalue _ ih =>
      obtain ⟨condition, hcondition, hgives⟩ := hvalue.gives
      have hfirst := firstNamed_eq_ok_iff (S := S).mpr hcondition
      have hnode : S.expression .load condition = .ok _ := hgives
      rw [List.cons_append, comprehensionClauses_condition hvalue.kind, hfirst]
      show (S.expression .load condition >>= _) = _
      rw [hnode]
      exact ih.trans (by rw [List.append_assoc, List.singleton_append])

/-- A loop closes the one that is open, if any. -/
theorem comprehensionClauses_loopValue {target iterable : Node}
    (h : LoopValue (fun context => S.Gives (.expression context)) clause target iterable) :
    S.comprehensionClauses current (clause :: clauses) =
      (comprehensionClauses.closed current ++ ·) <$>
        S.comprehensionClauses (some [target, iterable]) clauses := by
  rw [comprehensionClauses_loop h.kind, expressionIn_eq_ok_iff.mpr h.target,
    oneOrTuple_eq_ok_iff.mpr h.iterable, map_eq_pure_bind]
  rfl

/-- Groups of clauses do not depend on what was open before them, and they hand on an error of what
comes after them. -/
theorem comprehensionClauses_append_error {loops : List Node}
    (h : Loops (fun context => S.Gives (.expression context)) clauses loops) {rest : List Tree}
    {e : ParseError} (hrest : ∀ current, S.comprehensionClauses current rest = .error e) :
    S.comprehensionClauses current (clauses ++ rest) = .error e := by
  induction h generalizing current with
  | nil => exact hrest current
  | cons hloop hconditions _ ih =>
      rw [List.cons_append, List.cons_append, List.append_assoc,
        comprehensionClauses_loopValue hloop, comprehensionClauses_conditions hconditions, ih]
      rfl

theorem comprehensionClauses_of_loops {loops : List Node}
    (h : Loops (fun context => S.Gives (.expression context)) clauses loops) :
    S.comprehensionClauses current clauses =
      .ok (comprehensionClauses.closed current ++ loops) := by
  induction h generalizing current with
  | nil => rw [List.append_nil]; rfl
  | cons hloop hconditions _ ih =>
      rw [List.cons_append, comprehensionClauses_loopValue hloop,
        comprehensionClauses_conditions hconditions, ih]
      rfl

/-- What clauses give is the node of the open loop, with the conditions that come first, and then
what the groups of the others give. -/
theorem loops_of_comprehensionClauses {ns : List Node}
    (h : S.comprehensionClauses current clauses = .ok ns) :
    ∃ conditions rest values loops, clauses = conditions ++ rest ∧
      List.Forall₂ (ConditionValue (S.Gives (.expression .load))) conditions values ∧
      Loops (fun context => S.Gives (.expression context)) rest loops ∧
      ns = comprehensionClauses.closed (current.map (· ++ values)) ++ loops ∧
      (current = none → conditions = []) := by
  have hunchanged (current : Option (List Node)) : current.map (· ++ []) = current := by
    simp only [List.append_nil, Option.map_id']
  induction clauses generalizing current ns with
  | nil =>
      rw [comprehensionClauses, pure_eq_ok_iff] at h
      refine ⟨[], [], [], [], rfl, .nil, .nil, ?_, fun _ => rfl⟩
      rw [h, hunchanged, List.append_nil]
  | cons clause clauses ih =>
      by_cases hfor : clause.kind = "for_in_clause"
      · simp only [comprehensionClauses_loop hfor, bind_eq_ok_iff, pure_eq_ok_iff,
          expressionIn_eq_ok_iff, oneOrTuple_eq_ok_iff] at h
        obtain ⟨target, htarget, iterable, hiterable, more, hmore, rfl⟩ := h
        obtain ⟨conditions, rest, values, loops, rfl, hvalues, hloops, rfl, -⟩ := ih hmore
        refine ⟨[], _, [], _, rfl, .nil, .cons ⟨hfor, htarget, hiterable⟩ hvalues hloops, ?_,
          fun _ => rfl⟩
        rw [hunchanged]
        rfl
      · by_cases hif : clause.kind = "if_clause"
        · simp only [comprehensionClauses_condition hif, bind_eq_ok_iff,
            firstNamed_eq_ok_iff] at h
          obtain ⟨condition, hcondition, n, hn, h⟩ := h
          cases current with
          | none => exact absurd h unsupported_ne_ok
          | some parts =>
              obtain ⟨conditions, rest, values, loops, rfl, hvalues, hloops, rfl, -⟩ := ih h
              refine ⟨clause :: conditions, rest, n :: values, loops, rfl,
                .cons ⟨hif, condition, hcondition, hn⟩ hvalues, hloops, ?_,
                fun hnone => absurd hnone (Option.some_ne_none parts)⟩
              rw [Option.map_some, Option.map_some, List.append_assoc, List.singleton_append]
        · rw [comprehensionClauses_other hfor hif] at h
          exact absurd h unsupported_ne_ok

theorem comprehensionClauses_eq_ok_iff {loops : List Node} :
    S.comprehensionClauses none clauses = .ok loops ↔
      Loops (fun context => S.Gives (.expression context)) clauses loops := by
  refine ⟨fun h => ?_, fun h => comprehensionClauses_of_loops h⟩
  obtain ⟨conditions, rest, values, loops, rfl, -, hloops, rfl, hnone⟩ :=
    loops_of_comprehensionClauses h
  rw [hnone rfl]
  exact hloops

end clauses

theorem comprehension_eq_ok_iff {kind : Kind} {n : Node} :
    S.comprehension kind t = .ok n ↔ ∃ body values loops, t.field? "body" = some body ∧
      BodyValue (S.Gives (.expression .load)) body values ∧
      Loops (fun context => S.Gives (.expression context)) (t.namedBeside "body") loops ∧
      n = .of kind (values ++ loops) := by
  simp only [comprehension, bind_eq_ok_iff, pure_eq_ok_iff, required_eq_ok_iff,
    comprehensionBody_eq_ok_iff, comprehensionClauses_eq_ok_iff]
  constructor
  · rintro ⟨body, hbody, values, hvalues, loops, hloops, rfl⟩
    exact ⟨body, values, loops, hbody, hvalues, hloops, rfl⟩
  · rintro ⟨body, values, loops, hbody, hvalues, hloops, rfl⟩
    exact ⟨body, hbody, values, hvalues, loops, hloops, rfl⟩

/-- A misplaced clause is refused as soon as it is reached. -/
theorem comprehension_of_misplaced {kind : Kind} {before after : List Tree}
    (hclauses : t.namedBeside "body" = before ++ clause :: after) (h : Misplaced before clause)
    (hreaches : Reaches (fun context => S.Gives (.expression context)) t before clause) :
    S.comprehension kind t = .error (S.faultAt (.unsupported clause.kind) clause) := by
  obtain ⟨⟨body, values, hbody, hvalues⟩, ⟨loops, hloops⟩, hcondition⟩ := hreaches
  have hrefused : S.comprehensionClauses none (before ++ clause :: after) =
      .error (S.faultAt (.unsupported clause.kind) clause) := by
    cases h with
    | condition hkind hfirst =>
        obtain ⟨n, hvalue⟩ := hcondition hkind
        obtain ⟨condition, hcondition, hn⟩ := hvalue.gives
        have hn : S.expression .load condition = .ok n := hn
        rw [hfirst, List.nil_append, comprehensionClauses_condition hkind,
          firstNamed_eq_ok_iff.mpr hcondition]
        show (S.expression .load condition >>= _) = _
        rw [hn]
        rfl
    | other hfor hif =>
        exact comprehensionClauses_append_error hloops fun _ => comprehensionClauses_other hfor hif
  rw [comprehension, required_eq_ok_iff.mpr hbody]
  show (S.comprehensionBody body >>= _) = _
  rw [comprehensionBody_eq_ok_iff.mpr hvalues, hclauses, hrefused]
  rfl

end Scope

theorem BodyValue.lt_nestingLimit {source : Source} {depth : ℕ} {body : Tree} {values : List Node}
    (h : BodyValue (Gives source (depth + 1) (.expression .load)) body values) :
    depth < nestingLimit := by
  cases h with
  | pair _ _ _ hk _ => exact Nat.lt_of_succ_lt (lt_of_gives hk)
  | single _ h => exact Nat.lt_of_succ_lt (lt_of_gives h)

/-- A comprehension gives its body and one node for each loop, with the conditions between that loop
and the next one, at whatever depth it is nested and in no other case.  A clause that belongs to no
loop is never passed over: the comprehension is refused, at that clause if nothing before it is. -/
theorem gives_comprehension (source : Source) (t : Tree) (kind : Kind) (depth : ℕ)
    (context : ExprContext) (hkind : (t.kind, kind) ∈ comprehensionKinds) :
    (∀ n, Gives source depth (.expression context) t n ↔
      ∃ body values loops, t.field? "body" = some body ∧
        BodyValue (Gives source (depth + 1) (.expression .load)) body values ∧
        Loops (fun context => Gives source (depth + 1) (.expression context))
          (t.namedBeside "body") loops ∧
        n = .of kind (values ++ loops)) ∧
    ∀ before clause after, t.namedBeside "body" = before ++ clause :: after →
      Misplaced before clause →
      ∃ e, (lowerAt source (.expression context) t depth).1 = .error e ∧
        (Reaches (fun context => Gives source (depth + 1) (.expression context)) t before clause →
          e = .fault (.unsupported clause.kind) (source.startOf clause)) := by
  have hform : ExpressionForm.ofKind? t.kind = some (.comprehension kind) := by
    simp only [comprehensionKinds, List.mem_cons, Prod.mk.injEq, List.not_mem_nil, or_false]
      at hkind
    rcases hkind with ⟨ht, rfl⟩ | ⟨ht, rfl⟩ | ⟨ht, rfl⟩ | ⟨ht, rfl⟩ <;> rw [ht] <;> decide
  have hgives : (fun context => Gives source (depth + 1) (.expression context)) = fun context =>
      (Scope.withLevels source (nestingLimit - (depth + 1))).Gives (.expression context) :=
    funext fun context => gives_eq source (depth + 1) _
  have hiff (n : Node) : Gives source depth (.expression context) t n ↔
      ∃ body values loops, t.field? "body" = some body ∧
        BodyValue (Gives source (depth + 1) (.expression .load)) body values ∧
        Loops (fun context => Gives source (depth + 1) (.expression context))
          (t.namedBeside "body") loops ∧
        n = .of kind (values ++ loops) := by
    refine gives_iff_of_lt ?_ fun hdepth => ?_
    · rintro ⟨_, _, _, _, hvalues, _⟩
      exact hvalues.lt_nestingLimit
    · rw [hgives, gives_eq source (depth + 1), Gives, lowerAt_expression hdepth hform context]
      exact Scope.comprehension_eq_ok_iff
  refine ⟨hiff, fun before clause after hclauses hmisplaced => ?_⟩
  cases hresult : (lowerAt source (.expression context) t depth).1 with
  | ok n =>
      obtain ⟨body, values, loops, -, -, hloops, -⟩ := (hiff n).mp hresult
      rw [hclauses] at hloops
      exact absurd hmisplaced hloops.not_misplaced
  | error e =>
      refine ⟨e, rfl, fun hreaches => ?_⟩
      obtain ⟨_, _, _, hvalues⟩ := hreaches.body
      rw [hgives] at hreaches
      rw [lowerAt_expression hvalues.lt_nestingLimit hform context] at hresult
      have hrefused := hresult.symm.trans
        (Scope.comprehension_of_misplaced hclauses hmisplaced hreaches)
      rw [Scope.faultAt, Scope.source_withLevels] at hrefused
      exact Except.error.inj hrefused

namespace Concrete

/-- The comprehension `[a ...]` with the given clauses. -/
def comprehensionTree (clauses : List Tree) : Tree :=
  .node (.bare "list_comprehension" false 0 30) (token "[" 0 1 ::
    letter (some "body") 1 :: clauses ++ [token "]" 29 30])

/-- The loop `for b in c` where its target and its iterable stand at the given places. -/
def loopClause (left right : ℕ) : Tree :=
  .node (.bare "for_in_clause" false (left - 4) (right + 1))
    [letter (some "left") left, letter (some "right") right]

def conditionClause (condition : ℕ) : Tree :=
  .node (.bare "if_clause" false (condition - 3) (condition + 1)) [letter none condition]

end Concrete

theorem gives_comprehension_grouped :
    let source := Source.ofText "[a for b in c if d for e in f]"
    let name (id : String) (context : ExprContext) : Node := .of (.name id) [.ctx context]
    let loop := Concrete.loopClause 7 12
    let condition := Concrete.conditionClause 17
    let grouped := Concrete.comprehensionTree [loop, condition, Concrete.loopClause 23 28]
    (∃ body values loops, grouped.field? "body" = some body ∧
      BodyValue (Gives source 1 (.expression .load)) body values ∧
      Loops (fun context => Gives source 1 (.expression context)) (grouped.namedBeside "body")
        loops ∧
      Node.of .listComp [name "a" .load,
          .of .comprehension [name "b" .store, name "c" .load, name "d" .load],
          .of .comprehension [name "e" .store, name "f" .load]] =
        .of .listComp (values ++ loops)) ∧
    (lowerAt source (.expression .load) (Concrete.comprehensionTree [condition, loop]) 0).1 =
      .error (.fault (.unsupported "if_clause") (source.startOf condition)) := by
  intro source name loop condition grouped
  have hgives : Gives source 0 (.expression .load) grouped (.of .listComp [name "a" .load,
      .of .comprehension [name "b" .store, name "c" .load, name "d" .load],
      .of .comprehension [name "e" .store, name "f" .load]]) := by
    unfold Gives
    decide +kernel
  have hbody : Gives source 1 (.expression .load) (Concrete.letter (some "body") 1)
      (name "a" .load) := by
    unfold Gives
    decide +kernel
  have hcondition : Gives source 1 (.expression .load) (Concrete.letter none 17)
      (name "d" .load) := by
    unfold Gives
    decide +kernel
  have hreaches : Reaches (fun context => Gives source 1 (.expression context))
      (Concrete.comprehensionTree [condition, loop]) [] condition :=
    ⟨⟨_, _, rfl, .single (by decide) hbody⟩, ⟨_, .nil⟩, fun _ => ⟨_, rfl, _, rfl, hcondition⟩⟩
  obtain ⟨e, he, hunsupported⟩ := (gives_comprehension source
    (Concrete.comprehensionTree [condition, loop]) .listComp 0 .load (by decide)).2 [] condition
      [loop] rfl (.condition rfl rfl)
  exact ⟨((gives_comprehension source grouped .listComp 0 .load (by decide)).1 _).mp hgives,
    he.trans (congrArg _ (hunsupported hreaches))⟩

end RenderGate
