import RenderGate.Proofs.Grammar.Conformity
import RenderGate.Proofs.Lowering.Nesting

/-!
# Slots that hold several items

Some places hold one item or several with commas between them: the index of a subscript, a statement
that is an expression, the subject of a `match` statement and the pattern of a case.  What such a
place gives depends on the items only.  Several items, or none, make a sequence; one item stands for
itself, also where a comma follows it.
-/

namespace RenderGate

open Concrete (Source Tree)

/-- What some items give that share a place: a single one what it gives alone, and any other number
a sequence of what they give. -/
inductive SlotValue (sequence : List Node → Node) (gives : Tree → Node → Prop) :
    List Tree → Node → Prop
  | single {t : Tree} {n : Node} (h : gives t n) : SlotValue sequence gives [t] n
  | sequence {ts : List Tree} {ns : List Node} (hcount : ts.length ≠ 1)
      (h : List.Forall₂ gives ts ns) : SlotValue sequence gives ts (sequence ns)

/-- A tuple that is read, of what its items give. -/
def Node.tupled (ns : List Node) : Node := .of .tuple (ns ++ [.ctx .load])

def Concrete.Tree.casePatterns (clause : Tree) : List Tree :=
  clause.named.filter fun (c : Tree) => c.kind == "case_pattern"

def Concrete.Tree.caseClauses (body : Tree) : List Tree :=
  body.named.filter fun (c : Tree) => c.kind == "case_clause"

/-- A case whose pattern is what its items give. -/
def CaseValue (gives : Tree → Node → Prop) (clause : Tree) (n : Node) : Prop :=
  ∃ pattern rest, n = .of .matchCase (pattern :: rest) ∧
    SlotValue (.of .matchSequence) gives clause.casePatterns pattern

namespace Yields

variable {α β : Type}

theorem forall₂_mapM {R : β → α → Prop} {f : β → Lowered α} {ts : List β}
    (hf : ∀ t ∈ ts, Yields (R t) (f t)) : Yields (List.Forall₂ R ts) (ts.mapM f) := by
  induction ts with
  | nil => exact pure .nil
  | cons t ts ih =>
      rw [List.mapM_cons]
      refine (hf t List.mem_cons_self).bind fun a ha => ?_
      refine (ih fun u hu => hf u (List.mem_cons_of_mem t hu)).bind fun as has => ?_
      exact pure (.cons ha has)

/-- A lowering that tells a single item from any other number. -/
theorem slotValue {sequence : List Node → Node} {f : Tree → Lowered Node} {m : Lowered Node}
    {ts : List Tree} (hsingle : ∀ t, ts = [t] → m = f t)
    (hsequence : ts.length ≠ 1 → m = do return sequence (← ts.mapM f)) :
    Yields (SlotValue sequence (fun t n => f t = .ok n) ts) m := by
  by_cases hcount : ts.length = 1
  · obtain ⟨t, rfl⟩ := List.length_eq_one_iff.mp hcount
    rw [hsingle t rfl]
    exact fun n h => .single h
  · rw [hsequence hcount]
    exact (forall₂_mapM fun t _ n h => h).bind fun ns hns => pure (.sequence hcount hns)

end Yields

namespace Scope

variable (S : Scope Lowered)

def Gives {α : Type} (entry : Entry α) (t : Tree) (a : α) : Prop := S.enter entry t = .ok a

theorem yields_oneOrTuple (ts : List Tree) :
    Yields (SlotValue Node.tupled (S.Gives (.expression .load)) ts) (S.oneOrTuple .load ts) := by
  refine .slotValue (fun t ht => ht ▸ rfl) fun hcount => ?_
  match ts with
  | [] => rfl
  | [t] => exact absurd rfl hcount
  | _ :: _ :: _ => rfl

theorem yields_casePattern (ts : List Tree) :
    Yields (SlotValue (.of .matchSequence) (S.Gives .pattern) ts) (S.casePattern ts) := by
  refine .slotValue (fun t ht => ht ▸ rfl) fun hcount => ?_
  match ts with
  | [] => rfl
  | [t] => exact absurd rfl hcount
  | _ :: _ :: _ => rfl

theorem yields_matchCase (clause : Tree) :
    Yields (CaseValue (S.Gives .pattern) clause) (S.matchCase clause) := by
  refine (S.yields_casePattern clause.casePatterns).bind fun pattern h => ?_
  have hrest : ∀ guard : List Node, Yields (CaseValue (S.Gives .pattern) clause) (do
      let body ← S.suite clause "consequence"
      return .of .matchCase (pattern :: guard ++ body)) := fun guard =>
    .bind_any fun body => .pure ⟨pattern, guard ++ body, rfl, h⟩
  split
  · exact .bind_any fun inner => .bind_any hrest
  · exact hrest []

theorem yields_subscript (context : ExprContext) {t : Tree} (hkind : t.kind = "subscript") :
    Yields (fun n => ∃ value index, n = .of .subscript [value, index, .ctx context] ∧
      SlotValue Node.tupled (S.Gives (.expression .load)) (t.fields "subscript") index)
        (S.expressionNode context t) := by
  have hform : ExpressionForm.ofKind? t.kind = some .subscript := by
    rw [hkind]
    decide
  rw [expressionNode, hform]
  refine .bind_any fun value => (S.yields_oneOrTuple (t.fields "subscript")).bind fun index h => ?_
  exact .pure ⟨value, index, rfl, h⟩

theorem yields_expressionStatement {t : Tree} (hkind : t.kind = "expression_statement") :
    Yields (fun n =>
      (∃ c, t.named = [c] ∧ (c.kind = "assignment" ∨ c.kind = "augmented_assignment")) ∨
      ∃ value, n = .of .expr [value] ∧
        SlotValue Node.tupled (S.Gives (.expression .load)) t.named value)
          (S.statementNode t) := by
  have hform : StatementForm.ofKind? t.kind = some .expression := by
    rw [hkind]
    decide
  rw [statementNode, hform]
  show Yields _ (S.expressionStatement t)
  have hvalue (ts : List Tree) : Yields (fun n : Node => ∃ value, n = .of .expr [value] ∧
      SlotValue Node.tupled (S.Gives (.expression .load)) ts value)
        (do return .of .expr [← S.oneOrTuple .load ts]) :=
    (S.yields_oneOrTuple ts).bind fun value h => .pure ⟨value, rfl, h⟩
  -- Only a single item is looked at, for an assignment is no expression.
  unfold expressionStatement
  match t.named with
  | [] => exact yields_unsupported
  | [c] =>
      by_cases hassigned : c.kind = "assignment" ∨ c.kind = "augmented_assignment"
      · exact fun _ _ => .inl ⟨c, rfl, hassigned⟩
      · obtain ⟨hplain, haugmented⟩ := not_or.mp hassigned
        simp only [if_neg hplain, if_neg haugmented]
        exact fun n h => .inr (hvalue [c] n h)
  | c :: d :: cs => exact fun n h => .inr (hvalue (c :: d :: cs) n h)

theorem yields_matchStatement {t : Tree} (hkind : t.kind = "match_statement") :
    Yields (fun n => ∃ subject body cases, n = .of .matchStmt (subject :: cases) ∧
      SlotValue Node.tupled (S.Gives (.expression .load)) (t.fields "subject") subject ∧
      t.field? "body" = some body ∧
      List.Forall₂ (CaseValue (S.Gives .pattern)) body.caseClauses cases) (S.statementNode t) := by
  have hform : StatementForm.ofKind? t.kind = some .matchCases := by
    rw [hkind]
    decide
  rw [statementNode, hform]
  refine (S.yields_oneOrTuple (t.fields "subject")).bind fun subject hsubject => ?_
  unfold required
  cases hbody : t.field? "body" with
  | none => exact yields_unsupported
  | some body =>
      refine (Yields.forall₂_mapM fun clause _ => S.yields_matchCase clause).bind
        fun cases hcases => ?_
      exact .pure ⟨subject, body, cases, rfl, hsubject, rfl, hcases⟩

end Scope

/-- What a node gives that is entered in some way with the counter at a depth. -/
def Gives (source : Source) (depth : ℕ) {α : Type} (entry : Entry α) (t : Tree) (a : α) : Prop :=
  (lowerAt source entry t depth).1 = .ok a

theorem gives_eq (source : Source) (depth : ℕ) {α : Type} (entry : Entry α) :
    Gives source depth entry = (Scope.withLevels source (nestingLimit - depth)).Gives entry := by
  funext t a
  rw [Gives, lowerAt_eq, Scope.Gives]

/-- A node that is not nested too deep is lowered by the steps of its kind. -/
theorem Gives.outer {source : Source} {depth : ℕ} {α : Type} {entry : Entry α} {t : Tree} {a : α}
    (h : Gives source depth entry t a) :
    (Scope.withLevels source (nestingLimit - (depth + 1))).outer.Gives entry t a := by
  rw [gives_eq] at h
  cases hlevels : nestingLimit - depth with
  | zero =>
      -- No level is left, so the node is refused.
      rw [hlevels] at h
      cases entry <;> exact absurd h nofun
  | succ levels =>
      rw [hlevels, Scope.withLevels_succ] at h
      rwa [show nestingLimit - (depth + 1) = levels by omega]

/-- An expression that is not nested too deep is lowered by the steps of its form. -/
theorem Gives.expressionOf {source : Source} {depth : ℕ} {context : ExprContext} {t : Tree}
    {n : Node} (h : Gives source depth (.expression context) t n) {form : ExpressionForm}
    (hform : ExpressionForm.ofKind? t.kind = some form) :
    (Scope.withLevels source (nestingLimit - (depth + 1))).expressionOf context t form = .ok n := by
  have hnode : (Scope.withLevels source (nestingLimit - (depth + 1))).expressionNode context t =
      .ok n := h.outer
  rwa [Scope.expressionNode, hform] at hnode

/-- What the places give that may hold several items, at whatever depth they are nested: a sequence
of all items in their order if they are not exactly one, and what the item gives alone if there is
one.  Commas have no part in it. -/
theorem gives_slots (source : Source) (t : Tree) (depth : ℕ) :
    (t.kind = "subscript" → ∀ context n, Gives source depth (.expression context) t n →
      ∃ value index, n = .of .subscript [value, index, .ctx context] ∧
        SlotValue Node.tupled (Gives source (depth + 1) (.expression .load))
          (t.fields "subscript") index) ∧
    (t.kind = "expression_statement" → ∀ n, Gives source depth .statement t n →
      (∃ c, t.named = [c] ∧ (c.kind = "assignment" ∨ c.kind = "augmented_assignment")) ∨
      ∃ value, n = .of .expr [value] ∧
        SlotValue Node.tupled (Gives source (depth + 1) (.expression .load)) t.named value) ∧
    (t.kind = "match_statement" → ∀ n, Gives source depth .statement t n →
      ∃ subject body cases, n = .of .matchStmt (subject :: cases) ∧
        SlotValue Node.tupled (Gives source (depth + 1) (.expression .load))
          (t.fields "subject") subject ∧
        t.field? "body" = some body ∧
        List.Forall₂ (CaseValue (Gives source (depth + 1) .pattern)) body.caseClauses cases) := by
  rw [gives_eq source (depth + 1) (.expression .load), gives_eq source (depth + 1) .pattern]
  refine ⟨fun hkind context n h => ?_, fun hkind n h => ?_, fun hkind n h => ?_⟩
  · exact Scope.yields_subscript _ context hkind n h.outer
  · exact Scope.yields_expressionStatement _ hkind n h.outer
  · exact Scope.yields_matchStatement _ hkind n h.outer

namespace Concrete

def token (kind : String) (start stop : ℕ) : Tree :=
  .node { Info.bare kind false start stop with named := false } []

/-- A comma at an offset, or nothing. -/
def comma (there : Bool) (offset : ℕ) : List Tree :=
  if there then [token "," offset (offset + 1)] else []

/-- The subscript `b[1,]` in a text with commas, and `b[1]` in a text without. -/
def indexTree (commas : Bool) : Tree :=
  let w := commas.toNat
  .node (.bare "subscript" false (21 + 2 * w) (25 + 3 * w))
    (.node { Info.bare "identifier" false (21 + 2 * w) (22 + 2 * w) with
        field := some "value" } [] ::
      token "[" (22 + 2 * w) (23 + 2 * w) ::
      .node { Info.bare "integer" false (23 + 2 * w) (24 + 2 * w) with
        field := some "subscript" } [] ::
      comma commas (24 + 2 * w) ++ [token "]" (24 + 3 * w) (25 + 3 * w)])

/-- The statement of such a subscript, with one more comma. -/
def indexStatement (commas : Bool) : Tree :=
  let w := commas.toNat
  .node (.bare "expression_statement" false (21 + 2 * w) (25 + 4 * w))
    (indexTree commas :: comma commas (25 + 3 * w))

/-- The case `case a,:` of such a text, or `case a:`. -/
def caseTree (commas : Bool) : Tree :=
  let w := commas.toNat
  .node { Info.bare "case_clause" false (13 + w) (25 + 4 * w) with field := some "alternative" }
    (token "case" (13 + w) (17 + w) ::
      .node (.bare "case_pattern" false (18 + w) (19 + w))
        [.node (.bare "dotted_name" false (18 + w) (19 + w))
          [.node (.bare "identifier" false (18 + w) (19 + w)) []]] ::
      comma commas (19 + w) ++
      [token ":" (19 + 2 * w) (20 + 2 * w),
        .node { Info.bare "block" false (21 + 2 * w) (25 + 4 * w) with
          field := some "consequence" } [indexStatement commas]])

/-- The `match` statement of such a text, on the subject `x,` or `x`. -/
def matchTree (commas : Bool) : Tree :=
  let w := commas.toNat
  .node (.bare "match_statement" false 0 (25 + 4 * w))
    (token "match" 0 5 ::
      .node { Info.bare "identifier" false 6 7 with field := some "subject" } [] ::
      comma commas 7 ++
      [token ":" (7 + w) (8 + w),
        .node { Info.bare "block" false (8 + w) (25 + 4 * w) with field := some "body" }
          [caseTree commas]])

/-- A module of one `match` statement with a comma after every single item, or without them. -/
def matchModule (commas : Bool) : Tree :=
  .node (.bare "module" false 0 (25 + 4 * commas.toNat)) [matchTree commas]

def matchText (commas : Bool) : String :=
  if commas then "match x,:\n    case a,: b[1,]," else "match x:\n    case a: b[1]"

/-- The subscript `b[1, 2]`, with a comma between two items. -/
def pairTree : Tree :=
  .node (.bare "subscript" false 0 7)
    [.node { Info.bare "identifier" false 0 1 with field := some "value" } [],
      token "[" 1 2,
      .node { Info.bare "integer" false 2 3 with field := some "subscript" } [],
      token "," 3 4,
      .node { Info.bare "integer" false 5 6 with field := some "subscript" } [],
      token "]" 6 7]

end Concrete

namespace Node

def index : Node := .of .subscript [.of (.name "b") [.ctx .load], .leaf .constant, .ctx .load]

def matchName : Node :=
  .of .matchStmt [.of (.name "x") [.ctx .load],
    .of .matchCase [.leaf .matchAs, .of .expr [index]]]

end Node

/-- A single item before a comma stands for itself in each of the places, and two items with a
comma between them make a tuple. -/
theorem gives_slots_commas :
    let source := Source.ofText (Concrete.matchText true)
    let gives : Tree → Node → Prop := Gives source 1 (.expression .load)
    SlotValue Node.tupled gives ((Concrete.indexTree true).fields "subscript") (.leaf .constant) ∧
      SlotValue Node.tupled gives (Concrete.indexStatement true).named .index ∧
      SlotValue Node.tupled gives ((Concrete.matchTree true).fields "subject")
        (.of (.name "x") [.ctx .load]) ∧
      (∃ body, (Concrete.matchTree true).field? "body" = some body ∧
        List.Forall₂ (CaseValue (Gives source 1 .pattern)) body.caseClauses
          [.of .matchCase [.leaf .matchAs, .of .expr [.index]]]) ∧
      SlotValue Node.tupled (Gives (.ofText "b[1, 2]") 1 (.expression .load))
        (Concrete.pairTree.fields "subscript")
        (.of .tuple [.leaf .constant, .leaf .constant, .ctx .load]) := by
  intro source gives
  have hindex : Gives source 0 (.expression .load) (Concrete.indexTree true) .index := by
    unfold Gives
    decide +kernel
  have hstatement : Gives source 0 .statement (Concrete.indexStatement true)
      (.of .expr [.index]) := by
    unfold Gives
    decide +kernel
  have hmatch : Gives source 0 .statement (Concrete.matchTree true) .matchName := by
    unfold Gives
    decide +kernel
  have hpair : Gives (.ofText "b[1, 2]") 0 (.expression .load) Concrete.pairTree
      (.of .subscript [.of (.name "b") [.ctx .load],
        .of .tuple [.leaf .constant, .leaf .constant, .ctx .load], .ctx .load]) := by
    unfold Gives
    decide +kernel
  have hassigned : ¬ ∃ c, (Concrete.indexStatement true).named = [c] ∧
      (c.kind = "assignment" ∨ c.kind = "augmented_assignment") := by
    rintro ⟨c, hc, hkind⟩
    obtain rfl : Concrete.indexTree true = c := (List.cons.inj hc).1
    exact absurd hkind (by decide)
  refine ⟨?_, ?_, ?_⟩
  · obtain ⟨value, index, h, hslot⟩ :=
      (gives_slots source (Concrete.indexTree true) 0).1 rfl _ _ hindex
    cases h
    exact hslot
  · obtain ⟨value, h, hslot⟩ :=
      ((gives_slots source (Concrete.indexStatement true) 0).2.1 rfl _ hstatement).resolve_left
        hassigned
    cases h
    exact hslot
  · obtain ⟨subject, body, cases, h, hslot, hbody, hcases⟩ :=
      (gives_slots source (Concrete.matchTree true) 0).2.2 rfl _ hmatch
    cases h
    refine ⟨hslot, ⟨body, hbody, hcases⟩, ?_⟩
    obtain ⟨value, pair, h, hslot⟩ :=
      (gives_slots (.ofText "b[1, 2]") Concrete.pairTree 0).1 rfl _ _ hpair
    cases h
    exact hslot

/-- Each of the four places has a comma after its only item, and the tree is the one without
commas. -/
theorem parseTree_trailing_comma :
    (Concrete.matchTree true).hasToken "," = true ∧
      (Concrete.caseTree true).hasToken "," = true ∧
      (Concrete.indexStatement true).hasToken "," = true ∧
      (Concrete.indexTree true).hasToken "," = true ∧
      parseTree (Concrete.matchText true) (Concrete.matchModule true) =
        .ok (.of .module [.matchName]) ∧
      parseTree (Concrete.matchText false) (Concrete.matchModule false) =
        .ok (.of .module [.matchName]) := by
  refine ⟨by decide, by decide, by decide, by decide, ?_, ?_⟩
  · decide +kernel
  · decide +kernel

end RenderGate
