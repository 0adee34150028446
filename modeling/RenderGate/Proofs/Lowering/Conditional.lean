import RenderGate.Proofs.Lowering.Acceptance

/-!
# Conditionals

An `if` may have `elif` clauses and, at the end, an `else` clause.  It gives one node for itself and
one for each `elif`, each inside the one before it, and the statements of every clause stand in
their order in the node of the clause.  So an `elif` is the same as an `else` whose block holds
nothing but an `if` with all that follows; only that each such block takes one more level of
nesting.
-/

namespace RenderGate

open Concrete (Alike Info Source Tree)

/-- Any number of `elif` clauses, and at most one `else` clause after them. -/
inductive Alternatives : List Tree → Prop
  | nil : Alternatives []
  | last {clause : Tree} (hkind : clause.kind = "else_clause") : Alternatives [clause]
  | elif {clause : Tree} {clauses : List Tree} (hkind : clause.kind = "elif_clause")
      (h : Alternatives clauses) : Alternatives (clause :: clauses)

def elifCount (clauses : List Tree) : ℕ := clauses.countP fun (c : Tree) => c.kind == "elif_clause"

/-- What a clause with a condition gives: an `if` on its statements that goes on with the given
ones. -/
def BranchValue (loads runs : Tree → Node → Prop) (clause : Tree) (orelse : List Node) (n : Node) :
    Prop :=
  ∃ condition c block ns, clause.field? "condition" = some condition ∧ loads condition c ∧
    clause.field? "consequence" = some block ∧ List.Forall₂ runs block.named ns ∧
    n = .of .ifElse (c :: ns ++ orelse)

/-- What the alternatives of an `if` give: the statements of the `else`, or one `if` for the first
`elif` that goes on with what the others give. -/
inductive Orelse (loads runs : Tree → Node → Prop) : List Tree → List Node → Prop
  | nil : Orelse loads runs [] []
  | last {clause block : Tree} {ns : List Node} (hkind : clause.kind = "else_clause")
      (hbody : clause.field? "body" = some block) (h : List.Forall₂ runs block.named ns) :
      Orelse loads runs [clause] ns
  | elif {clause : Tree} {clauses : List Tree} {orelse : List Node} {n : Node}
      (hkind : clause.kind = "elif_clause") (hrest : Orelse loads runs clauses orelse)
      (h : BranchValue loads runs clause orelse n) : Orelse loads runs (clause :: clauses) [n]

structure SameBranch (t u : Tree) : Prop where
  condition : u.field? "condition" = t.field? "condition"
  consequence : u.field? "consequence" = t.field? "consequence"

/-- The second clauses are the first ones where each `elif`, with all that follows it, is an `else`
whose block holds one `if`. -/
inductive Nests : List Tree → List Tree → Prop
  | nil : Nests [] []
  | last {clause : Tree} (hkind : clause.kind = "else_clause") : Nests [clause] [clause]
  | elif {clause other block inner : Tree} {clauses : List Tree}
      (hkind : clause.kind = "elif_clause") (hother : other.kind = "else_clause")
      (hbody : other.field? "body" = some block) (hblock : block.named = [inner])
      (hinner : inner.kind = "if_statement") (hsame : SameBranch clause inner)
      (h : Nests clauses (inner.fields "alternative")) : Nests (clause :: clauses) [other]

/-- The second statement is the first one without its `elif` clauses, which are nested instead. -/
structure Nested (t u : Tree) : Prop extends SameBranch t u where
  kind : u.kind = "if_statement"
  alternatives : Nests (t.fields "alternative") (u.fields "alternative")

theorem Nests.alternatives {clauses clauses' : List Tree} (h : Nests clauses clauses') :
    Alternatives clauses' := by
  cases h with
  | nil => exact .nil
  | last hkind => exact .last hkind
  | elif _ hother _ _ _ _ _ => exact .last hother

section mono

variable {loads loads' runs runs' : Tree → Node → Prop}
  (hloads : ∀ t n, loads t n → loads' t n) (hruns : ∀ t n, runs t n → runs' t n)

include hloads hruns

theorem BranchValue.mono {t u : Tree} (hsame : SameBranch t u) {orelse : List Node} {n : Node}
    (h : BranchValue loads runs t orelse n) : BranchValue loads' runs' u orelse n := by
  obtain ⟨condition, c, block, ns, hcondition, hc, hblock, hns, hn⟩ := h
  exact ⟨condition, c, block, ns, hsame.condition.trans hcondition, hloads _ _ hc,
    hsame.consequence.trans hblock, hns.imp fun _ _ => hruns _ _, hn⟩

theorem Orelse.mono {clauses : List Tree} {orelse : List Node}
    (h : Orelse loads runs clauses orelse) : Orelse loads' runs' clauses orelse := by
  induction h with
  | nil => exact .nil
  | last hkind hbody h => exact .last hkind hbody (h.imp fun _ _ => hruns _ _)
  | elif hkind _ h ih => exact .elif hkind ih (h.mono hloads hruns ⟨rfl, rfl⟩)

end mono

namespace Scope

open Lowered

variable {S : Scope Lowered} {t : Tree} {n : Node} {orelse : List Node}

def branch (S : Scope Lowered) (t : Tree) (orelse : List Node) : Lowered Node := do
  let condition ← S.expressionIn .load t "condition"
  let consequence ← S.suite t "consequence"
  return .of .ifElse (condition :: consequence ++ orelse)

theorem branch_eq_ok_iff : S.branch t orelse = .ok n ↔
    BranchValue (S.Gives (.expression .load)) (S.Gives .statement) t orelse n := by
  simp only [branch, bind_eq_ok_iff, pure_eq_ok_iff, expressionIn_eq_ok_iff, suite_eq_ok_iff]
  constructor
  · rintro ⟨c, ⟨condition, hcondition, hc⟩, ns, ⟨block, hblock, hns⟩, hn⟩
    exact ⟨condition, c, block, ns, hcondition, hc, hblock, hns, hn⟩
  · rintro ⟨condition, c, block, ns, hcondition, hc, hblock, hns, hn⟩
    exact ⟨c, ⟨condition, hcondition, hc⟩, ns, ⟨block, hblock, hns⟩, hn⟩

theorem alternatives_else {clause : Tree} (hkind : clause.kind = "else_clause") :
    S.alternatives [clause] = S.suite clause "body" := by
  rw [alternatives, alternatives, hkind]
  rfl

theorem alternatives_elif {clause : Tree} (hkind : clause.kind = "elif_clause")
    (clauses : List Tree) : S.alternatives (clause :: clauses) = (do
      let orelse ← S.alternatives clauses
      return [← S.branch clause orelse]) := by
  rw [alternatives, hkind]
  simp only [branch, bind_assoc, pure_bind]

theorem alternatives_eq_ok_iff {clauses : List Tree} (h : Alternatives clauses) :
    S.alternatives clauses = .ok orelse ↔
      Orelse (S.Gives (.expression .load)) (S.Gives .statement) clauses orelse := by
  induction h generalizing orelse with
  | nil =>
      rw [alternatives, pure_eq_ok_iff]
      exact ⟨fun h => h ▸ .nil, fun h => by cases h; rfl⟩
  | @last clause hkind =>
      rw [alternatives_else hkind, suite_eq_ok_iff]
      constructor
      · rintro ⟨block, hblock, hns⟩
        exact .last hkind hblock hns
      · rintro (_ | ⟨-, hblock, hns⟩ | ⟨helif, -, -⟩)
        · exact ⟨_, hblock, hns⟩
        · exact absurd (hkind.symm.trans helif) (by decide)
  | @elif clause clauses hkind _ ih =>
      simp only [alternatives_elif hkind, bind_eq_ok_iff, ih, branch_eq_ok_iff, pure_eq_ok_iff]
      constructor
      · rintro ⟨orelse, hrest, n, hn, rfl⟩
        exact .elif hkind hrest hn
      · rintro (_ | ⟨helse, -, -⟩ | ⟨-, hrest, hn⟩)
        · exact absurd (hkind.symm.trans helse) (by decide)
        · exact ⟨_, hrest, _, hn, rfl⟩

theorem ifStatement_eq_ok_iff (h : Alternatives (t.fields "alternative")) :
    S.ifStatement t = .ok n ↔ ∃ orelse,
      Orelse (S.Gives (.expression .load)) (S.Gives .statement) (t.fields "alternative") orelse ∧
      BranchValue (S.Gives (.expression .load)) (S.Gives .statement) t orelse n := by
  have hsteps : S.ifStatement t = S.alternatives (t.fields "alternative") >>= S.branch t := rfl
  simp only [hsteps, bind_eq_ok_iff, alternatives_eq_ok_iff h, branch_eq_ok_iff]

end Scope

section depths

variable {source : Source} {depth depth' : ℕ} {t u : Tree} {n : Node}

theorem BranchValue.lt_nestingLimit {orelse : List Node}
    (h : BranchValue (Gives source (depth + 1) (.expression .load))
      (Gives source (depth + 1) .statement) t orelse n) : depth < nestingLimit := by
  obtain ⟨_, _, _, _, -, hc, -⟩ := h
  exact Nat.lt_of_succ_lt (lt_of_gives hc)

/-- An `if` gives its own branch, with what its alternatives give. -/
theorem gives_branch (hkind : t.kind = "if_statement")
    (h : Alternatives (t.fields "alternative")) :
    Gives source depth .statement t n ↔ ∃ orelse,
      Orelse (Gives source (depth + 1) (.expression .load)) (Gives source (depth + 1) .statement)
        (t.fields "alternative") orelse ∧
      BranchValue (Gives source (depth + 1) (.expression .load))
        (Gives source (depth + 1) .statement) t orelse n := by
  have hform : StatementForm.ofKind? t.kind = some .ifElse := by
    rw [hkind]
    decide
  refine gives_iff_of_lt ?_ fun hdepth => ?_
  · rintro ⟨_, _, hbranch⟩
    exact hbranch.lt_nestingLimit
  · rw [gives_eq source (depth + 1), gives_eq source (depth + 1), Gives,
      lowerAt_statement hdepth hform]
    exact Scope.ifStatement_eq_ok_iff h

/-- What the nested clauses give at a depth, the others give at any lower one. -/
theorem Nests.orelse_of_nested {clauses clauses' : List Tree} (h : Nests clauses clauses')
    {orelse : List Node} (hle : depth ≤ depth')
    (horelse : Orelse (Gives source depth' (.expression .load)) (Gives source depth' .statement)
      clauses' orelse) :
    Orelse (Gives source depth (.expression .load)) (Gives source depth .statement)
      clauses orelse := by
  induction h generalizing depth' orelse with
  | nil | last => exact horelse.mono (fun _ _ h => gives_mono h hle) fun _ _ h => gives_mono h hle
  | elif hkind hother hbody hblock hinner hsame hrest ih =>
      cases horelse with
      | elif hkind' => exact absurd (hother.symm.trans hkind') (by decide)
      | last _ hbody' hns =>
          -- The block holds one `if`, which goes on one level further in.
          obtain rfl := Option.some.inj (hbody.symm.trans hbody')
          rw [hblock, List.forall₂_cons_left_iff] at hns
          obtain ⟨n, _, hn, hnil, rfl⟩ := hns
          obtain rfl := List.forall₂_nil_left_iff.mp hnil
          obtain ⟨orelse, horelse, hbranch⟩ := (gives_branch hinner hrest.alternatives).mp hn
          refine .elif hkind (ih (Nat.le_succ_of_le hle) horelse) ?_
          exact hbranch.mono (fun _ _ h => gives_mono h (Nat.le_succ_of_le hle))
            (fun _ _ h => gives_mono h (Nat.le_succ_of_le hle))
            ⟨hsame.condition.symm, hsame.consequence.symm⟩

/-- What the clauses give at a depth, the nested ones give with one level less for each `elif`. -/
theorem Nests.orelse_nested {clauses clauses' : List Tree} (h : Nests clauses clauses')
    {orelse : List Node} (hle : depth + elifCount clauses ≤ depth')
    (horelse : Orelse (Gives source depth' (.expression .load)) (Gives source depth' .statement)
      clauses orelse) :
    Orelse (Gives source depth (.expression .load)) (Gives source depth .statement)
      clauses' orelse := by
  have hmono {d : ℕ} {α : Type} {entry : Entry α} (hd : d ≤ depth') (t : Tree) (a : α)
      (h : Gives source depth' entry t a) : Gives source d entry t a := gives_mono h hd
  induction h generalizing depth orelse with
  | nil | last =>
      have hdepth : depth ≤ depth' := Nat.le_of_add_right_le hle
      exact horelse.mono (hmono hdepth) (hmono hdepth)
  | @elif clause other block inner clauses hkind hother hbody hblock hinner hsame hrest ih =>
      cases horelse with
      | last hkind' => exact absurd (hkind.symm.trans hkind') (by decide)
      | elif _ horelse hbranch =>
          have hcount : elifCount (clause :: clauses) = elifCount clauses + 1 :=
            List.countP_cons_of_pos (beq_iff_eq.mpr hkind)
          have hinside : depth + 1 + elifCount clauses ≤ depth' := by omega
          have hdepth : depth + 1 ≤ depth' := Nat.le_of_add_right_le hinside
          have hn := (gives_branch hinner hrest.alternatives).mpr
            ⟨_, ih hinside horelse, hbranch.mono (hmono hdepth) (hmono hdepth) hsame⟩
          refine .last hother hbody ?_
          rw [hblock]
          exact .cons hn .nil

end depths

namespace Concrete.Tree

/-- The parts of a node other than its alternatives, with the given alternatives after them. -/
def withAlternatives (i : Info) (t : Tree) (alternatives : List Tree) : Tree :=
  .node i ((t.children.filter fun (c : Tree) => c.info.field != some "alternative") ++ alternatives)

/-- The clauses with each `elif` as an `else` whose block holds one `if`. -/
def nestedAlternatives : List Tree → List Tree
  | [] => []
  | clause :: clauses =>
      if clause.kind = "elif_clause" then
        let i : Info := { clause.info with kind := "if_statement", named := true, extra := false,
                                           field := none }
        [.node { i with kind := "else_clause", field := some "alternative" }
          [.node { i with kind := "block", field := some "body" }
            [clause.withAlternatives i (nestedAlternatives clauses)]]]
      else clause :: nestedAlternatives clauses

section withAlternatives

variable {i : Info} {t : Tree} {alternatives : List Tree}

theorem fields_withAlternatives (h : ∀ c ∈ alternatives, c.info.field = some "alternative") :
    (t.withAlternatives i alternatives).fields "alternative" = alternatives := by
  have hothers : ((t.children.filter fun (c : Tree) => c.info.field != some "alternative").filter
      fun (c : Tree) => c.info.field == some "alternative") = [] := by
    refine List.filter_eq_nil_iff.mpr fun c hc => ?_
    simpa using (List.mem_filter.mp hc).2
  rw [fields, withAlternatives, Rose.children_node, List.filter_append, hothers, List.nil_append]
  exact List.filter_eq_self.mpr fun c hc => by rw [h c hc, beq_self_eq_true]

theorem field?_withAlternatives (h : ∀ c ∈ alternatives, c.info.field = some "alternative")
    {name : String} (hname : name ≠ "alternative") :
    (t.withAlternatives i alternatives).field? name = t.field? name := by
  have hadded : alternatives.find? (fun (c : Tree) => c.info.field == some name) = none := by
    refine List.find?_eq_none.mpr fun c hc => ?_
    simpa [h c hc] using hname.symm
  rw [field?, withAlternatives, Rose.children_node, List.find?_append, hadded, Option.or_none,
    List.find?_filter, field?]
  congr 1
  funext c
  by_cases hfield : c.info.field = some name
  · simp [hfield, hname]
  · simp [hfield]

theorem field_of_mem_nestedAlternatives {clauses : List Tree}
    (h : ∀ c ∈ clauses, c.info.field = some "alternative") :
    ∀ c ∈ nestedAlternatives clauses, c.info.field = some "alternative" := by
  induction clauses with
  | nil => exact fun c hc => absurd hc List.not_mem_nil
  | cons clause clauses ih =>
      rw [nestedAlternatives]
      split
      · exact fun c hc => List.mem_singleton.mp hc ▸ rfl
      · rintro c hc
        rcases List.mem_cons.mp hc with rfl | hc
        · exact h _ List.mem_cons_self
        · exact ih (fun c hc => h c (List.mem_cons_of_mem _ hc)) c hc

end withAlternatives

end Concrete.Tree

section Nests

open Concrete.Tree

variable {clauses clauses' : List Tree}

theorem sameBranch_withAlternatives (i : Info) (t : Tree) {alternatives : List Tree}
    (h : ∀ c ∈ alternatives, c.info.field = some "alternative") :
    SameBranch t (t.withAlternatives i alternatives) :=
  ⟨field?_withAlternatives h (by decide), field?_withAlternatives h (by decide)⟩

theorem Alternatives.nests (h : Alternatives clauses)
    (hfield : ∀ c ∈ clauses, c.info.field = some "alternative") :
    Nests clauses (nestedAlternatives clauses) := by
  induction h with
  | nil => exact .nil
  | last hkind =>
      rw [nestedAlternatives, if_neg (by rw [hkind]; decide)]
      exact .last hkind
  | @elif clause clauses hkind _ ih =>
      have hrest : ∀ c ∈ clauses, c.info.field = some "alternative" := fun c hc =>
        hfield c (List.mem_cons_of_mem clause hc)
      have hnested := field_of_mem_nestedAlternatives hrest
      rw [nestedAlternatives, if_pos hkind]
      refine .elif hkind rfl rfl rfl rfl (sameBranch_withAlternatives _ clause hnested) ?_
      rw [fields_withAlternatives hnested]
      exact ih hrest

/-- Every statement with `elif` clauses has a nested form. -/
theorem exists_nested {t : Tree} (hkind : t.kind = "if_statement")
    (h : Alternatives (t.fields "alternative")) : ∃ u, Nested t u := by
  have hfield : ∀ c ∈ t.fields "alternative", c.info.field = some "alternative" := fun c hc =>
    beq_iff_eq.mp (List.mem_filter.mp hc).2
  have hnested := field_of_mem_nestedAlternatives hfield
  refine ⟨t.withAlternatives t.info (nestedAlternatives (t.fields "alternative")),
    sameBranch_withAlternatives _ t hnested, hkind, ?_⟩
  rw [fields_withAlternatives hnested]
  exact h.nests hfield

end Nests

/-- An `if` gives its own branch and one node for each `elif`, the later inside the earlier, with
the statements of the `else` in the last; every clause gives its statements in order, once.  The
same statement where each `elif`, with what follows it, is nested in an `else` gives the same tree
wherever both are accepted, in this text or any other.  It is accepted just where this one is, but
for the levels that the nested blocks take. -/
theorem gives_ifStatement (source : Source) (t : Tree) (hkind : t.kind = "if_statement")
    (halternatives : Alternatives (t.fields "alternative")) :
    (∀ depth n, Gives source depth .statement t n ↔ ∃ orelse,
      Orelse (Gives source (depth + 1) (.expression .load)) (Gives source (depth + 1) .statement)
        (t.fields "alternative") orelse ∧
      BranchValue (Gives source (depth + 1) (.expression .load))
        (Gives source (depth + 1) .statement) t orelse n) ∧
    (∃ u, Nested t u) ∧
    ∀ u, Nested t u →
      (∀ depth depth' n n', Gives source depth .statement t n →
        Gives source depth' .statement u n' → n = n') ∧
      (∀ depth n, Gives source depth .statement u n → Gives source depth .statement t n) ∧
      (∀ depth n, Gives source (depth + elifCount (t.fields "alternative")) .statement t n →
        Gives source depth .statement u n) ∧
      ∀ source' u', Alike source source' u u' → ∀ depth n,
        Gives source depth .statement u n ↔ Gives source' depth .statement u' n := by
  refine ⟨fun depth n => gives_branch hkind halternatives, exists_nested hkind halternatives,
    fun u hnested => ?_⟩
  have hnests := hnested.alternatives
  have hflat (depth : ℕ) (n : Node) (h : Gives source depth .statement u n) :
      Gives source depth .statement t n := by
    obtain ⟨orelse, horelse, hbranch⟩ := (gives_branch hnested.kind hnests.alternatives).mp h
    exact (gives_branch hkind halternatives).mpr ⟨orelse,
      hnests.orelse_of_nested (Nat.le_refl _) horelse, hbranch.mono (fun _ _ => id) (fun _ _ => id)
        ⟨hnested.condition.symm, hnested.consequence.symm⟩⟩
  refine ⟨fun depth depth' n n' hn hn' => gives_unique hn (hflat depth' n' hn'), hflat,
    fun depth n h => ?_, fun source' u' halike depth n => gives_iff_of_alike halike⟩
  obtain ⟨orelse, horelse, hbranch⟩ := (gives_branch hkind halternatives).mp h
  have hle : depth + 1 + elifCount (t.fields "alternative") ≤
      depth + elifCount (t.fields "alternative") + 1 :=
    Nat.le_of_eq (Nat.add_right_comm _ _ _)
  refine (gives_branch hnested.kind hnests.alternatives).mpr ⟨orelse,
    hnests.orelse_nested hle horelse, ?_⟩
  have hdepth := Nat.le_of_add_right_le hle
  exact hbranch.mono (fun _ _ h => gives_mono h hdepth) (fun _ _ h => gives_mono h hdepth)
    hnested.toSameBranch

namespace Concrete

def nameBlock (role : String) (start : ℕ) : Tree :=
  .node { Info.bare "block" false start (start + 1) with field := some role }
    [.node (.bare "expression_statement" false start (start + 1)) [letter none start]]

def branchTree (i : Info) (condition block : ℕ) (alternatives : List Tree) : Tree :=
  .node i (letter (some "condition") condition :: nameBlock "consequence" block :: alternatives)

def Info.alternative (kind : String) (start stop : ℕ) : Info :=
  { Info.bare kind false start stop with field := some "alternative" }

/-- The `if` of the text `if a: b⏎elif c: d⏎else: e`. -/
def elifTree : Tree :=
  branchTree (.bare "if_statement" false 0 25) 3 6
    [branchTree (.alternative "elif_clause" 8 17) 13 16 [],
      .node (.alternative "else_clause" 18 25) [nameBlock "body" 24]]

/-- The same without an `elif`, where the names of the second branch and of the last block stand at
the given places. -/
def nestedIfTree (condition block last : ℕ) : Tree :=
  branchTree (.bare "if_statement" false 0 (last + 1)) 3 6
    [.node (.alternative "else_clause" 8 (last + 1))
      [.node { Info.bare "block" false 8 (last + 1) with field := some "body" }
        [branchTree (.bare "if_statement" false 8 (last + 1)) condition block
          [.node (.alternative "else_clause" (block + 2) (last + 1)) [nameBlock "body" last]]]]]

end Concrete

theorem gives_ifStatement_elif :
    let name (id : String) : Node := .of (.name id) [.ctx .load]
    let tree : Node := .of .ifElse [name "a", .of .expr [name "b"],
      .of .ifElse [name "c", .of .expr [name "d"], .of .expr [name "e"]]]
    let source := Source.ofText "if a: b\nelif c: d\nelse: e"
    let source' := Source.ofText "if a: b\nelse:\n if c: d\n else: e"
    Concrete.elifTree.kind = "if_statement" ∧
    Alternatives (Concrete.elifTree.fields "alternative") ∧
    Nested Concrete.elifTree (Concrete.nestedIfTree 13 16 24) ∧
    Alike source source' (Concrete.nestedIfTree 13 16 24) (Concrete.nestedIfTree 18 21 30) ∧
    (∃ orelse, Orelse (Gives source 2 (.expression .load)) (Gives source 2 .statement)
        (Concrete.elifTree.fields "alternative") orelse ∧
      BranchValue (Gives source 2 (.expression .load)) (Gives source 2 .statement)
        Concrete.elifTree orelse tree) ∧
    Gives source' 0 .statement (Concrete.nestedIfTree 18 21 30) tree := by
  intro name tree source source'
  have halternatives : Alternatives (Concrete.elifTree.fields "alternative") :=
    .elif rfl (.last rfl)
  have hnested : Nested Concrete.elifTree (Concrete.nestedIfTree 13 16 24) :=
    ⟨⟨rfl, rfl⟩, rfl, .elif rfl rfl rfl rfl rfl ⟨rfl, rfl⟩ (.last rfl)⟩
  have halike : Alike source source' (Concrete.nestedIfTree 13 16 24)
      (Concrete.nestedIfTree 18 21 30) :=
    ⟨by decide +kernel, by decide, by decide⟩
  have hgives : Gives source 1 .statement Concrete.elifTree tree := by
    unfold Gives
    decide +kernel
  have hmain := gives_ifStatement source Concrete.elifTree rfl halternatives
  obtain ⟨-, -, hnests, hlayout⟩ := hmain.2.2 _ hnested
  exact ⟨rfl, halternatives, hnested, halike, (hmain.1 1 tree).mp hgives,
    (hlayout source' _ halike 0 tree).mp (hnests 0 tree hgives)⟩

end RenderGate
