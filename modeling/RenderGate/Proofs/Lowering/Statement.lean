import RenderGate.Proofs.Lowering.Pattern

/-!
# Agreement of statements

Every step of lowering a statement keeps agreement, the clauses of compound statements and the
definitions of functions, classes and types included.
-/

namespace RenderGate

open Concrete (Source Tree)

section steps

variable {m : Type → Type} [Monad m] [MonadExcept ParseError m]

/-- The match on the value to the right does not depend on how it was found. -/
theorem Scope.assigned_eq (S : Scope m) (t : Tree) : S.assigned t =
    if t.kind = "assignment" ∧ (t.field? "type").isNone then
      S.expressionIn .store t "left" >>= fun target =>
        match t.field? "right" with
        | some right => do return target :: (← S.assigned right)
        | none => S.unsupported t
    else do return [← S.expression .load t] := by
  rw [assigned]
  congr 2
  funext target
  split
  · rename_i right hright
    rw [hright]
  · rename_i hright
    rw [hright]

def Scope.typeParameterOf (S : Scope m) (t : Tree) : m Node :=
  match t.kind with
  | "identifier" => return .leaf .typeVar
  | "constrained_type" =>
      match t.named with
      | [_, bound] => return .of .typeVar [← S.expression .load bound]
      | _ => S.unsupported t
  | "splat_type" => return .leaf (if t.hasToken "**" then .paramSpec else .typeVarTuple)
  | _ => S.unsupported t

theorem Scope.typeParameter_eq [LawfulMonad m] (S : Scope m) (t : Tree) : S.typeParameter t =
    if t.kind = "type" then S.firstNamed t >>= S.typeParameterOf else S.typeParameterOf t := by
  unfold typeParameter
  split
  · rfl
  · rw [pure_bind]
    rfl

end steps

namespace Scope.Agrees

variable {m m' : Type → Type} [Monad m] [Monad m'] [LawfulMonad m] [LawfulMonad m']
  [MonadExcept ParseError m] [MonadExcept ParseError m'] {s s' : Source} {L : Likeness s s' m m'}
  {S : Scope m} {S' : Scope m'} (h : S.Agrees L S') {t t' : Tree}
include h

theorem assigned (ht : L.Like t t') : Agree L.toAccord Eq (S.assigned t) (S'.assigned t') := by
  -- an assignment to the right lies inside the one before it
  induction hn : t.size using Nat.strongRecOn generalizing t t' with
  | ind n ih =>
      have htype := isSome_eq_of_rel (L.field? ht "type")
      have hchain : t.kind = "assignment" ∧ (t.field? "type").isNone ↔
          t'.kind = "assignment" ∧ (t'.field? "type").isNone := by
        rw [L.kind ht, ← Option.not_isSome, ← Option.not_isSome, htype]
      rw [assigned_eq, assigned_eq]
      by_cases hk : t.kind = "assignment" ∧ (t.field? "type").isNone
      · rw [if_pos hk, if_pos (hchain.mp hk)]
        refine (h.expressionIn .store ht "left").bind_eq fun target => ?_
        rcases L.field?_cases ht "right" with ⟨h₁, h₂⟩ | ⟨right, right', h₁, h₂, hright⟩
        · rw [h₁, h₂]
          exact h.unsupported ht
        · rw [h₁, h₂]
          have hsize := Tree.size_lt_of_field? h₁
          exact (ih _ (hn ▸ hsize) hright rfl).bind_eq fun rest => .pure rfl
      · rw [if_neg hk, if_neg (hchain.not.mp hk)]
        exact (h.expression .load ht).bind_eq fun value => .pure rfl

theorem assignment (ht : L.Like t t') :
    Agree L.toAccord Eq (S.assignment t) (S'.assignment t') := by
  refine (h.required ht "left").bind fun left left' hleft => ?_
  refine (h.expression .store hleft).bind_eq fun target => ?_
  rcases L.field?_cases ht "type" with ⟨h₁, h₂⟩ | ⟨hint, hint', h₁, h₂, hhint⟩
  · rw [h₁, h₂]
    refine (h.required ht "right").bind fun right right' hright => ?_
    exact (h.assigned hright).bind_eq fun rest => .pure rfl
  · rw [h₁, h₂]
    refine (h.expression .load hhint).bind_eq fun type => ?_
    rcases L.field?_cases ht "right" with ⟨h₃, h₄⟩ | ⟨value, value', h₃, h₄, hvalue⟩
    · rw [h₃, h₄]
      exact .pure rfl
    · rw [h₃, h₄]
      exact (h.expression .load hvalue).bind_eq fun value => .pure rfl

theorem augmentedAssignment (ht : L.Like t t') :
    Agree L.toAccord Eq (S.augmentedAssignment t) (S'.augmentedAssignment t') := by
  refine (h.required ht "operator").bind fun token token' htoken => ?_
  rw [L.kind htoken]
  cases Operator.binary? token'.kind with
  | none => exact h.unsupported htoken
  | some operator =>
      refine (h.expressionIn .store ht "left").bind_eq fun target => ?_
      exact (h.expressionIn .load ht "right").bind_eq fun value => .pure rfl

theorem expressionStatement (ht : L.Like t t') :
    Agree L.toAccord Eq (S.expressionStatement t) (S'.expressionStatement t') := by
  have hnamed := L.named ht
  unfold Scope.expressionStatement
  generalize t.named = ts at hnamed ⊢
  generalize t'.named = us at hnamed ⊢
  rcases hnamed with _ | ⟨hc, _ | ⟨hd, hds⟩⟩
  · exact h.unsupported ht
  · simp only [L.kind hc]
    split
    · exact h.assignment hc
    · split
      · exact h.augmentedAssignment hc
      · exact (h.expression .load hc).bind_eq fun value => .pure rfl
  · exact (h.oneOrTuple .load (.cons hc (.cons hd hds))).bind_eq fun value => .pure rfl

theorem deleted (ht : L.Like t t') : Agree L.toAccord Eq (S.deleted t) (S'.deleted t') := by
  unfold Scope.deleted
  rw [L.kind ht]
  split
  · exact h.expressions .del (L.named ht)
  · exact (h.expression .del ht).bind_eq fun target => .pure rfl

theorem importedName (ht : L.Like t t')
    (hs : t.importedName?.map s.slice? = t'.importedName?.map s'.slice?) :
    Agree L.toAccord Eq (S.importedName t) (S'.importedName t') := by
  unfold Tree.importedName? at hs
  unfold Scope.importedName
  rw [← L.kind ht] at hs ⊢
  split
  · rename_i hk
    have hname := L.spelled ht
    simp only [Tree.spellings, ← L.kind ht, hk] at hname
    refine (h.required_text ht hname).bind fun c c' hc => ?_
    exact (h.text hc.1 hc.2).bind_eq fun name => .pure rfl
  · rename_i hk
    rw [if_neg hk, if_neg hk, Option.map_some, Option.map_some, Option.some.injEq] at hs
    refine Agree.bind (R := fun c c' => L.Like c c' ∧ s.slice? c = s'.slice? c')
      (.pure ⟨ht, hs⟩) fun c c' hc => ?_
    exact (h.text hc.1 hc.2).bind_eq fun name => .pure rfl

theorem importedNames (ht : L.Like t t') (hk : t.kind = "import_statement" ∨
    t.kind = "import_from_statement" ∨ t.kind = "future_import_statement") :
    Agree L.toAccord Eq (S.importedNames t) (S'.importedNames t') := by
  have hs : ((t.fields "name").filterMap Tree.importedName?).map s.slice? =
      ((t'.fields "name").filterMap Tree.importedName?).map s'.slice? := by
    have hs := L.spelled ht
    rcases hk with hk | hk | hk
    all_goals simpa only [Tree.spellings, ← L.kind ht, hk] using hs
  have hsome : ∀ c c', L.Like c c' → c.importedName?.isSome = c'.importedName?.isSome := by
    intro c c' hc
    unfold Tree.importedName?
    rw [L.kind hc]
    split <;> rfl
  exact .mapM (forall₂_filterMap (L.fields ht "name") hsome hs)
    fun _ _ hc => h.importedName hc.1 hc.2

theorem importFrom (ht : L.Like t t') (hk : t.kind = "import_statement" ∨
    t.kind = "import_from_statement" ∨ t.kind = "future_import_statement") :
    Agree L.toAccord Eq (S.importFrom t) (S'.importFrom t') := by
  refine (h.importedNames ht hk).bind_eq fun names => ?_
  rw [L.any_kind (L.named ht) fun kind => kind == "wildcard_import"]
  exact .pure rfl

theorem alternatives {ts us : List Tree} (hts : List.Forall₂ L.Like ts us) :
    Agree L.toAccord Eq (S.alternatives ts) (S'.alternatives us) := by
  induction hts with
  | nil => exact .pure rfl
  | cons hc _ ih =>
      rw [Scope.alternatives, Scope.alternatives]
      refine ih.bind_eq fun orelse => ?_
      rw [L.kind hc]
      split
      · exact h.suite hc "body"
      · refine (h.expressionIn .load hc "condition").bind_eq fun condition => ?_
        exact (h.suite hc "consequence").bind_eq fun consequence => .pure rfl
      · exact h.unsupported hc

theorem ifStatement (ht : L.Like t t') :
    Agree L.toAccord Eq (S.ifStatement t) (S'.ifStatement t') := by
  refine (h.alternatives (L.fields ht "alternative")).bind_eq fun orelse => ?_
  refine (h.expressionIn .load ht "condition").bind_eq fun condition => ?_
  exact (h.suite ht "consequence").bind_eq fun consequence => .pure rfl

theorem elseSuite (ht : L.Like t t') :
    Agree L.toAccord Eq (S.elseSuite t) (S'.elseSuite t') := by
  unfold Scope.elseSuite
  rcases L.field?_cases ht "alternative" with ⟨h₁, h₂⟩ | ⟨c, c', h₁, h₂, hc⟩
  · rw [h₁, h₂]
    exact .pure rfl
  · rw [h₁, h₂]
    exact h.suite hc "body"

omit h in
theorem syncOrAsync_eq (ht : L.Like t t') (sync async : Kind) :
    Scope.syncOrAsync t sync async = Scope.syncOrAsync t' sync async := by
  unfold Scope.syncOrAsync
  rw [L.hasToken ht]

theorem forStatement (ht : L.Like t t') :
    Agree L.toAccord Eq (S.forStatement t) (S'.forStatement t') := by
  refine (h.expressionIn .store ht "left").bind_eq fun target => ?_
  refine (h.expressionIn .load ht "right").bind_eq fun iterable => ?_
  refine (h.suite ht "body").bind_eq fun body => ?_
  refine (h.elseSuite ht).bind_eq fun orelse => ?_
  rw [syncOrAsync_eq ht]
  exact .pure rfl

theorem whileStatement (ht : L.Like t t') :
    Agree L.toAccord Eq (S.whileStatement t) (S'.whileStatement t') := by
  refine (h.expressionIn .load ht "condition").bind_eq fun condition => ?_
  refine (h.suite ht "body").bind_eq fun body => ?_
  exact (h.elseSuite ht).bind_eq fun orelse => .pure rfl

/-- The two parts of an `as` look alike, and what it binds is spelled alike if the names are. -/
theorem asParts (ht : L.Like t t') :
    Agree L.toAccord (fun p p' => L.Like p.1 p'.1 ∧ L.Like p.2 p'.2 ∧
        (t.boundName?.map s.slice? = t'.boundName?.map s'.slice? → s.slice? p.2 = s'.slice? p'.2))
      (S.asParts t) (S'.asParts t') := by
  have hnamed := L.named ht
  unfold Scope.asParts Tree.boundName?
  generalize t.named = ts at hnamed ⊢
  generalize t'.named = us at hnamed ⊢
  rcases hnamed with _ | ⟨hv, _ | ⟨ha, _ | _⟩⟩
  · exact h.unsupported ht
  · exact h.unsupported ht
  · rename_i value value' target target'
    simp only [Tree.secondOfTwo?, Option.bind_some, L.kind ha]
    split
    · refine (h.firstNamed_and (P := fun c c' => target.named.head?.map s.slice? =
        target'.named.head?.map s'.slice? → s.slice? c = s'.slice? c') ha
          fun c c' h₁ h₂ hs => ?_).bind fun c c' hc => .pure ⟨hv, hc.1, hc.2⟩
      rw [h₁, h₂] at hs
      exact Option.some.inj hs
    · exact .pure ⟨hv, ha, fun hs => Option.some.inj hs⟩
  · exact h.unsupported ht

theorem caught (ht : L.Like t t') {ts us : List Tree} (hts : List.Forall₂ L.Like ts us)
    (hs : (Tree.caughtName? ts).map s.slice? = (Tree.caughtName? us).map s'.slice?) :
    Agree L.toAccord Eq (S.caught t ts) (S'.caught t' us) := by
  rcases hts with _ | ⟨hc, _ | ⟨hb, _ | _⟩⟩
  · exact .pure rfl
  · rename_i c c'
    simp only [Tree.caughtName?, ← L.kind hc] at hs
    simp only [Scope.caught, ← L.kind hc]
    split
    · rename_i hk
      rw [if_pos hk, if_pos hk] at hs
      refine (h.asParts hc).bind fun parts parts' hparts => ?_
      refine (h.expression .load hparts.1).bind_eq fun value => ?_
      exact (h.text hparts.2.1 (hparts.2.2 hs)).bind_eq fun bound => .pure rfl
    · exact (h.expression .load hc).bind_eq fun value => .pure rfl
  · refine (h.expression .load hc).bind_eq fun value => ?_
    exact (h.text hb (Option.some.inj hs)).bind_eq fun bound => .pure rfl
  · exact h.unsupported ht

theorem exceptHandler (ht : L.Like t t')
    (hk : t.kind = "except_clause" ∨ t.kind = "except_group_clause") :
    Agree L.toAccord Eq (S.exceptHandler t) (S'.exceptHandler t') := by
  have hs : t.handlerName?.map s.slice? = t'.handlerName?.map s'.slice? := by
    have hs := L.spelled ht
    rcases hk with hk | hk
    all_goals
      simp only [Tree.spellings, ← L.kind ht, hk] at hs
      exact map_eq_of_toList hs
  refine (h.caught ht (L.filter_kind (L.named ht) fun kind => kind != "block") hs).bind_eq
    fun caught => ?_
  have hblocks := L.filter_kind (L.named ht) fun kind => kind == "block"
  exact (Agree.mapM hblocks fun _ _ hc => h.statements hc).bind_eq fun body => .pure rfl

theorem tryClause (ht : L.Like t t') :
    Agree L.toAccord Eq (S.tryClause t) (S'.tryClause t') := by
  unfold Scope.tryClause
  rw [← L.kind ht]
  split
  · exact .pure rfl
  · exact (h.exceptHandler ht (.inl ‹_›)).bind_eq fun handler => .pure rfl
  · exact (h.exceptHandler ht (.inr ‹_›)).bind_eq fun handler => .pure rfl
  · exact h.suite ht "body"
  · refine (Agree.mapM (L.named ht) fun _ _ hc => h.statements hc).bind_eq fun body => ?_
    exact .pure rfl
  · exact h.unsupported ht

theorem tryStatement (ht : L.Like t t') :
    Agree L.toAccord Eq (S.tryStatement t) (S'.tryStatement t') := by
  refine (h.suite ht "body").bind_eq fun body => ?_
  refine (Agree.mapM (L.named ht) fun _ _ hc => h.tryClause hc).bind_eq fun clauses => ?_
  rw [L.any_kind (L.named ht) fun kind => kind == "except_group_clause"]
  exact .pure rfl

theorem withItem (ht : L.Like t t') : Agree L.toAccord Eq (S.withItem t) (S'.withItem t') := by
  refine (h.required ht "value").bind fun value value' hvalue => ?_
  rw [L.kind hvalue]
  split
  · refine (h.asParts hvalue).bind fun parts parts' hparts => ?_
    refine (h.expression .load hparts.1).bind_eq fun manager => ?_
    exact (h.expression .store hparts.2.1).bind_eq fun target => .pure rfl
  · exact (h.expression .load hvalue).bind_eq fun manager => .pure rfl

theorem withStatement (ht : L.Like t t') :
    Agree L.toAccord Eq (S.withStatement t) (S'.withStatement t') := by
  have hitems := L.flatMap_named (L.filter_kind (L.named ht) fun kind => kind == "with_clause")
  refine (Agree.mapM hitems fun _ _ hc => h.withItem hc).bind_eq fun items => ?_
  refine (h.suite ht "body").bind_eq fun body => ?_
  rw [syncOrAsync_eq ht]
  exact .pure rfl

theorem typeParameterOf (ht : L.Like t t') :
    Agree L.toAccord Eq (S.typeParameterOf t) (S'.typeParameterOf t') := by
  unfold Scope.typeParameterOf
  rw [L.kind ht, L.hasToken ht]
  split
  · exact .pure rfl
  · have hnamed := L.named ht
    generalize t.named = ts at hnamed ⊢
    generalize t'.named = us at hnamed ⊢
    rcases hnamed with _ | ⟨_, _ | ⟨hb, _ | _⟩⟩
    · exact h.unsupported ht
    · exact h.unsupported ht
    · exact (h.expression .load hb).bind_eq fun bound => .pure rfl
    · exact h.unsupported ht
  · exact .pure rfl
  · exact h.unsupported ht

theorem typeParameter (ht : L.Like t t') :
    Agree L.toAccord Eq (S.typeParameter t) (S'.typeParameter t') := by
  rw [typeParameter_eq, typeParameter_eq, L.kind ht]
  split
  · exact (h.firstNamed ht).bind fun _ _ hc => h.typeParameterOf hc
  · exact h.typeParameterOf ht

theorem typeParameters (ht : L.Like t t') :
    Agree L.toAccord Eq (S.typeParameters t) (S'.typeParameters t') := by
  unfold Scope.typeParameters
  rcases L.field?_cases ht "type_parameters" with ⟨h₁, h₂⟩ | ⟨list, list', h₁, h₂, hlist⟩
  · rw [h₁, h₂]
    exact .pure rfl
  · rw [h₁, h₂]
    exact .mapM (L.named hlist) fun _ _ hc => h.typeParameter hc

omit h in
/-- The name and the parameters of a function are spelled alike. -/
theorem spelled_function (ht : L.Like t t') (hk : t.kind = "function_definition") :
    (t.field? "name").toList.map s.slice? = (t'.field? "name").toList.map s'.slice? ∧
      t.declaredNames.map s.slice? = t'.declaredNames.map s'.slice? := by
  have hs := L.spelled ht
  simp only [Tree.spellings, ← L.kind ht, hk, List.map_append] at hs
  refine List.append_inj hs ?_
  rw [List.length_map, List.length_map, Option.length_toList, Option.length_toList,
    isSome_eq_of_rel (L.field? ht "name")]

theorem functionDefinition (decorators : List Node) (ht : L.Like t t')
    (hk : t.kind = "function_definition") :
    Agree L.toAccord Eq (S.functionDefinition decorators t)
      (S'.functionDefinition decorators t') := by
  have hs := spelled_function ht hk
  refine (h.required_text ht hs.1).bind fun c c' hc => (h.text hc.1 hc.2).bind_eq fun name => ?_
  refine (h.typeParameters ht).bind_eq fun typeParameters => ?_
  refine (h.parameters ht hs.2).bind_eq fun parameters => ?_
  rcases L.field?_cases ht "return_type" with ⟨h₁, h₂⟩ | ⟨type, type', h₁, h₂, htype⟩
  · rw [h₁, h₂, syncOrAsync_eq ht]
    refine Agree.bind_eq (.pure rfl) fun returns => ?_
    exact (h.suite ht "body").bind_eq fun body => .pure rfl
  · rw [h₁, h₂, syncOrAsync_eq ht]
    refine ((h.expression .load htype).map_eq List.singleton).bind_eq fun returns => ?_
    exact (h.suite ht "body").bind_eq fun body => .pure rfl

theorem classDefinition (decorators : List Node) (ht : L.Like t t')
    (hk : t.kind = "class_definition") :
    Agree L.toAccord Eq (S.classDefinition decorators t) (S'.classDefinition decorators t') := by
  have hs := L.spelled ht
  simp only [Tree.spellings, ← L.kind ht, hk] at hs
  refine (h.required_text ht hs).bind fun c c' hc => (h.text hc.1 hc.2).bind_eq fun name => ?_
  refine (h.typeParameters ht).bind_eq fun typeParameters => ?_
  rcases L.field?_cases ht "superclasses" with ⟨h₁, h₂⟩ | ⟨list, list', h₁, h₂, hlist⟩
  · rw [h₁, h₂]
    refine Agree.bind_eq (.pure rfl) fun bases => ?_
    exact (h.suite ht "body").bind_eq fun body => .pure rfl
  · rw [h₁, h₂]
    refine (h.arguments hlist).bind_eq fun bases => ?_
    exact (h.suite ht "body").bind_eq fun body => .pure rfl

theorem decorator (ht : L.Like t t') :
    Agree L.toAccord Eq (S.decorator t) (S'.decorator t') :=
  (h.firstNamed ht).bind fun _ _ hc => h.expression .load hc

theorem decorated (ht : L.Like t t') :
    Agree L.toAccord Eq (S.decorated t) (S'.decorated t') := by
  have hdecorators := L.filter_kind (L.named ht) fun kind => kind == "decorator"
  refine (Agree.mapM hdecorators fun _ _ hc => h.decorator hc).bind_eq fun decorators => ?_
  refine (h.required ht "definition").bind fun definition definition' hdefinition => ?_
  rw [← L.kind hdefinition]
  split
  · exact h.functionDefinition decorators hdefinition ‹_›
  · exact h.classDefinition decorators hdefinition ‹_›
  · exact h.unsupported hdefinition

theorem aliasTarget (ht : L.Like t t') :
    Agree L.toAccord Eq (S.aliasTarget t) (S'.aliasTarget t') := by
  unfold Scope.aliasTarget
  rw [L.kind ht]
  split
  · refine (h.firstNamed ht).bind fun c c' hc => (h.expression .store hc).bind_eq fun name => ?_
    have hlists := L.flatMap_named (L.filter_kind (L.named ht) fun kind => kind == "type_parameter")
    exact (Agree.mapM hlists fun _ _ hc => h.typeParameter hc).bind_eq fun rest => .pure rfl
  · refine (h.expressionIn .store ht "value").bind_eq fun name => ?_
    refine (Agree.mapM (L.fields ht "subscript") fun _ _ hc => h.typeParameter hc).bind_eq
      fun rest => ?_
    exact .pure rfl
  · exact (h.expression .store ht).bind_eq fun name => .pure rfl

theorem typeAlias (ht : L.Like t t') :
    Agree L.toAccord Eq (S.typeAlias t) (S'.typeAlias t') := by
  have hrest : ∀ {left left'}, L.Like left left' → Agree L.toAccord Eq
      (do let target ← S.aliasTarget left
          let right ← S.expressionIn .load t "right"
          return Node.of .typeAlias (target ++ [right]))
      (do let target ← S'.aliasTarget left'
          let right ← S'.expressionIn .load t' "right"
          return Node.of .typeAlias (target ++ [right])) := by
    intro left left' hleft
    refine (h.aliasTarget hleft).bind_eq fun target => ?_
    exact (h.expressionIn .load ht "right").bind_eq fun right => .pure rfl
  refine (h.required ht "left").bind fun left left' hleft => ?_
  rw [L.kind hleft]
  split
  · exact (h.firstNamed hleft).bind fun _ _ hc => hrest hc
  · exact Agree.bind (.pure hleft) fun _ _ hc => hrest hc

theorem statementOf (ht : L.Like t t') {form : StatementForm}
    (hform : (t.kind, form) ∈ StatementForm.kinds) :
    Agree L.toAccord Eq (S.statementOf t form) (S'.statementOf t' form) := by
  cases form with
  | expression => exact h.expressionStatement ht
  | values kind => exact (h.expressions .load (L.named ht)).bind_eq fun values => .pure rfl
  | bare kind => exact .pure rfl
  | delete =>
      refine (Agree.mapM (L.named ht) fun _ _ hc => h.deleted hc).bind_eq fun targets => ?_
      exact .pure rfl
  | importNames =>
      refine (h.importedNames ht ?_).bind_eq fun names => .pure rfl
      have hk : t.kind = "import_statement" := by simpa [StatementForm.kinds] using hform
      exact .inl hk
  | importFrom =>
      have hk : t.kind = "import_from_statement" ∨ t.kind = "future_import_statement" := by
        simpa [StatementForm.kinds] using hform
      exact h.importFrom ht (.inr hk)
  | ifElse => exact h.ifStatement ht
  | forLoop => exact h.forStatement ht
  | whileLoop => exact h.whileStatement ht
  | tryBlock => exact h.tryStatement ht
  | withBlock => exact h.withStatement ht
  | function =>
      have hk : t.kind = "function_definition" := by simpa [StatementForm.kinds] using hform
      exact h.functionDefinition [] ht hk
  | classDef =>
      have hk : t.kind = "class_definition" := by simpa [StatementForm.kinds] using hform
      exact h.classDefinition [] ht hk
  | decorated => exact h.decorated ht
  | matchCases => exact h.matchStatement ht
  | typeAlias => exact h.typeAlias ht
  | legacy construct => exact h.faultAt ht _ nofun

theorem statementNode (ht : L.Like t t') :
    Agree L.toAccord Eq (S.statementNode t) (S'.statementNode t') := by
  unfold Scope.statementNode
  rw [← L.kind ht]
  cases hform : StatementForm.ofKind? t.kind with
  | some form => exact h.statementOf ht (mem_of_lookup_eq_some hform)
  | none => exact h.unsupported ht

end Scope.Agrees

end RenderGate
