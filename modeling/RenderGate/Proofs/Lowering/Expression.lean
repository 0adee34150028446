import RenderGate.Proofs.Lowering.FormattedString

/-!
# Agreement of expressions

Every step of lowering an expression keeps agreement.  Where a step reads a text, the two nodes that
spell it cover the same characters.
-/

namespace RenderGate

open Concrete (Source Tree)

namespace Scope.Agrees

variable {m m' : Type → Type} [Monad m] [Monad m'] [LawfulMonad m] [LawfulMonad m']
  [MonadExcept ParseError m] [MonadExcept ParseError m'] {s s' : Source} {L : Likeness s s' m m'}
  {S : Scope m} {S' : Scope m'} (h : S.Agrees L S') {t t' : Tree}
include h

/-- The children in a role, with what else relates them. -/
theorem required_and {P : Tree → Tree → Prop} (ht : L.Like t t') {name : String}
    (hP : ∀ c c', t.field? name = some c → t'.field? name = some c' → P c c') :
    Agree L.toAccord (fun c c' => L.Like c c' ∧ P c c') (S.required t name)
      (S'.required t' name) := by
  unfold Scope.required
  rcases L.field?_cases ht name with ⟨h₁, h₂⟩ | ⟨c, c', h₁, h₂, hc⟩
  · rw [h₁, h₂]
    exact h.unsupported ht
  · have hcc := hP c c' h₁ h₂
    rw [h₁, h₂]
    exact .pure ⟨hc, hcc⟩

/-- The first children, with what else relates them. -/
theorem firstNamed_and {P : Tree → Tree → Prop} (ht : L.Like t t')
    (hP : ∀ c c', t.named.head? = some c → t'.named.head? = some c' → P c c') :
    Agree L.toAccord (fun c c' => L.Like c c' ∧ P c c') (S.firstNamed t) (S'.firstNamed t') := by
  unfold Scope.firstNamed
  have hnamed := L.named ht
  generalize t.named = ts at hnamed hP ⊢
  generalize t'.named = us at hnamed hP ⊢
  cases hnamed with
  | nil => exact h.unsupported ht
  | cons hc _ => exact .pure ⟨hc, hP _ _ rfl rfl⟩

/-- A child in a role whose text is read. -/
theorem required_text (ht : L.Like t t') {name : String}
    (hs : (t.field? name).toList.map s.slice? = (t'.field? name).toList.map s'.slice?) :
    Agree L.toAccord (fun c c' => L.Like c c' ∧ s.slice? c = s'.slice? c')
      (S.required t name) (S'.required t' name) :=
  h.required_and ht fun c c' h₁ h₂ => by
    rw [h₁, h₂] at hs
    exact (List.cons.inj hs).1

theorem binary (ht : L.Like t t') : Agree L.toAccord Eq (S.binary t) (S'.binary t') := by
  refine (h.required ht "operator").bind fun token token' htoken => ?_
  rw [L.kind htoken]
  cases Operator.binary? token'.kind with
  | none => exact h.unsupported htoken
  | some operator =>
      refine (h.expressionIn .load ht "left").bind_eq fun left => ?_
      exact (h.expressionIn .load ht "right").bind_eq fun right => .pure rfl

theorem unary (ht : L.Like t t') : Agree L.toAccord Eq (S.unary t) (S'.unary t') := by
  refine (h.required ht "operator").bind fun token token' htoken => ?_
  rw [L.kind htoken]
  cases Operator.unary? token'.kind with
  | none => exact h.unsupported htoken
  | some operator => exact (h.expressionIn .load ht "argument").bind_eq fun argument => .pure rfl

omit h in
theorem continuesChain_eq (token : String) (ht : L.Like t t') :
    continuesChain token t = continuesChain token t' := by
  unfold continuesChain
  rw [L.kind ht]
  rcases L.field?_cases ht "operator" with ⟨h₁, h₂⟩ | ⟨c, c', h₁, h₂, hc⟩
  · rw [h₁, h₂]
  · rw [h₁, h₂]
    simp only [L.kind hc]

theorem chainOperands (token : String) (ht : L.Like t t') :
    Agree L.toAccord Eq (S.chainOperands token t) (S'.chainOperands token t') := by
  refine (h.required ht "left").bind fun left left' hleft => ?_
  rw [continuesChain_eq token hleft]
  split
  · refine (h.operands token hleft).bind_eq fun front => ?_
    exact (h.expressionIn .load ht "right").bind_eq fun right => .pure rfl
  · refine ((h.expression .load hleft).map_eq List.singleton).bind_eq fun front => ?_
    exact (h.expressionIn .load ht "right").bind_eq fun right => .pure rfl

theorem boolean (ht : L.Like t t') : Agree L.toAccord Eq (S.boolean t) (S'.boolean t') := by
  refine (h.required ht "operator").bind fun token token' htoken => ?_
  rw [L.kind htoken]
  cases Operator.boolean? token'.kind with
  | none => exact h.unsupported ht
  | some operator => exact (h.chainOperands _ ht).bind_eq fun operands => .pure rfl

theorem comparisonBefore (ht : L.Like t t') (pending : List String) :
    Agree L.toAccord Eq (S.comparisonBefore t pending) (S'.comparisonBefore t' pending) := by
  unfold Scope.comparisonBefore
  split
  · exact .pure rfl
  · dsimp only
    split
    · exact h.faultAt ht _ nofun
    · split
      · exact .pure rfl
      · exact h.unsupported ht

theorem comparisonParts (ht : L.Like t t') {ts us : List Tree} (hts : List.Forall₂ L.Like ts us)
    (pending : List String) : Agree L.toAccord Eq (S.comparisonParts t pending ts)
      (S'.comparisonParts t' pending us) := by
  induction hts generalizing pending with
  | nil => exact .pure rfl
  | cons hc _ ih =>
      rw [Scope.comparisonParts, Scope.comparisonParts, L.isNamed hc, L.kind hc]
      split
      · refine (h.comparisonBefore ht pending).bind_eq fun operator => ?_
        refine (h.expression .load hc).bind_eq fun operand => ?_
        exact (ih []).bind_eq fun rest => .pure rfl
      · exact ih _

theorem argument (ht : L.Like t t') : Agree L.toAccord Eq (S.argument t) (S'.argument t') := by
  have hs := L.spelled ht
  unfold Tree.spellings at hs
  unfold Scope.argument
  rw [← L.kind ht] at hs ⊢
  split
  · rename_i hk
    simp only [hk] at hs
    refine (h.required_text ht hs).bind fun c c' hc => (h.text hc.1 hc.2).bind_eq fun name => ?_
    exact (h.expressionIn .load ht "value").bind_eq fun value => .pure rfl
  · refine (h.firstNamed ht).bind fun c c' hc => ?_
    exact (h.expression .load hc).bind_eq fun value => .pure rfl
  · exact h.expression .load ht

theorem arguments (ht : L.Like t t') : Agree L.toAccord Eq (S.arguments t) (S'.arguments t') :=
  .mapM (L.named ht) fun _ _ hc => h.argument hc

theorem call (ht : L.Like t t') : Agree L.toAccord Eq (S.call t) (S'.call t') := by
  refine (h.expressionIn .load ht "function").bind_eq fun function => ?_
  refine (h.required ht "arguments").bind fun list list' hlist => ?_
  rw [L.kind hlist]
  split
  · exact ((h.expression .load hlist).map_eq List.singleton).bind_eq fun arguments => .pure rfl
  · exact (h.arguments hlist).bind_eq fun arguments => .pure rfl

/-- A key and a value. -/
theorem keyValue (ht : L.Like t t') : Agree L.toAccord Eq
    (do let key ← S.expressionIn .load t "key"
        let value ← S.expressionIn .load t "value"
        return [key, value])
    (do let key ← S'.expressionIn .load t' "key"
        let value ← S'.expressionIn .load t' "value"
        return [key, value]) :=
  (h.expressionIn .load ht "key").bind_eq fun _ =>
    (h.expressionIn .load ht "value").bind_eq fun _ => .pure rfl

theorem dictionaryEntry (ht : L.Like t t') :
    Agree L.toAccord Eq (S.dictionaryEntry t) (S'.dictionaryEntry t') := by
  unfold Scope.dictionaryEntry
  rw [L.kind ht]
  split
  · exact h.keyValue ht
  · refine (h.firstNamed ht).bind fun c c' hc => ?_
    exact (h.expression .load hc).bind_eq fun value => .pure rfl
  · exact h.unsupported ht

theorem comprehensionBody (ht : L.Like t t') :
    Agree L.toAccord Eq (S.comprehensionBody t) (S'.comprehensionBody t') := by
  unfold Scope.comprehensionBody
  rw [L.kind ht]
  split
  · exact h.keyValue ht
  · exact (h.expression .load ht).bind_eq fun value => .pure rfl

theorem comprehensionClauses {ts us : List Tree} (hts : List.Forall₂ L.Like ts us)
    (current : Option (List Node)) : Agree L.toAccord Eq (S.comprehensionClauses current ts)
      (S'.comprehensionClauses current us) := by
  induction hts generalizing current with
  | nil => exact .pure rfl
  | cons hc _ ih =>
      rw [Scope.comprehensionClauses, Scope.comprehensionClauses, L.kind hc]
      split
      · refine (h.expressionIn .store hc "left").bind_eq fun target => ?_
        refine (h.oneOrTuple .load (L.fields hc "right")).bind_eq fun iterable => ?_
        exact (ih _).bind_eq fun rest => .pure rfl
      · refine (h.firstNamed hc).bind fun d d' hd => ?_
        refine (h.expression .load hd).bind_eq fun condition => ?_
        cases current with
        | some parts => exact ih _
        | none => exact h.unsupported hc
      · exact h.unsupported hc

theorem comprehension (kind : Kind) (ht : L.Like t t') :
    Agree L.toAccord Eq (S.comprehension kind t) (S'.comprehension kind t') := by
  refine (h.required ht "body").bind fun body body' hbody => ?_
  refine (h.comprehensionBody hbody).bind_eq fun yielded => ?_
  exact (h.comprehensionClauses (L.namedBeside ht "body") none).bind_eq fun clauses => .pure rfl

theorem parameterName (ht : L.Like t t')
    (hs : t.parameterName?.map s.slice? = t'.parameterName?.map s'.slice?) :
    Agree L.toAccord Eq (S.parameterName t) (S'.parameterName t') := by
  unfold Tree.parameterName? at hs
  unfold Scope.parameterName
  rw [← L.kind ht] at hs ⊢
  have hstars (hs : t.named.head?.map s.slice? = t'.named.head?.map s'.slice?) :
      Agree L.toAccord Eq (S.firstNamed t >>= S.text) (S'.firstNamed t' >>= S'.text) := by
    refine (h.firstNamed_and (P := fun c c' => s.slice? c = s'.slice? c') ht
      fun c c' h₁ h₂ => ?_).bind fun c c' hc => h.text hc.1 hc.2
    rw [h₁, h₂] at hs
    exact Option.some.inj hs
  split
  · rename_i hk
    simp only [hk] at hs
    exact h.text ht (Option.some.inj hs)
  · rename_i hk
    simp only [hk] at hs
    exact hstars hs
  · rename_i hk
    simp only [hk] at hs
    exact hstars hs
  · exact h.unsupported ht

/-- The name of a parameter in a role. -/
theorem required_parameter (ht : L.Like t t') {name : String}
    (hs : ((t.field? name).bind Tree.parameterName?).map s.slice? =
      ((t'.field? name).bind Tree.parameterName?).map s'.slice?) :
    Agree L.toAccord
      (fun c c' => L.Like c c' ∧ c.parameterName?.map s.slice? = c'.parameterName?.map s'.slice?)
      (S.required t name) (S'.required t' name) :=
  h.required_and ht fun c c' h₁ h₂ => by
    rw [h₁, h₂] at hs
    exact hs

theorem parameter (ht : L.Like t t')
    (hs : t.declaredName?.map s.slice? = t'.declaredName?.map s'.slice?) :
    Agree L.toAccord Eq (S.parameter t) (S'.parameter t') := by
  unfold Tree.declaredName? at hs
  unfold Scope.parameter
  rw [← L.kind ht] at hs ⊢
  split
  case h_1 hk | h_2 hk | h_3 hk =>
    simp only [hk] at hs
    exact (h.parameterName ht hs).bind_eq fun name => .pure rfl
  case h_4 hk =>
    simp only [hk] at hs
    refine (h.expressionIn .load ht "type").bind_eq fun hint => ?_
    refine (h.firstNamed_and (P := fun c c' => c.parameterName?.map s.slice? =
      c'.parameterName?.map s'.slice?) ht fun c c' h₁ h₂ => ?_).bind fun c c' hc => ?_
    · rw [h₁, h₂] at hs
      exact hs
    · exact (h.parameterName hc.1 hc.2).bind_eq fun name => .pure rfl
  case h_5 hk =>
    simp only [hk] at hs
    refine (h.required_parameter ht hs).bind fun c c' hc => ?_
    refine (h.parameterName hc.1 hc.2).bind_eq fun name => ?_
    exact (h.expressionIn .load ht "value").bind_eq fun value => .pure rfl
  case h_6 hk =>
    simp only [hk] at hs
    refine (h.expressionIn .load ht "type").bind_eq fun hint => ?_
    refine (h.required_parameter ht hs).bind fun c c' hc => ?_
    refine (h.parameterName hc.1 hc.2).bind_eq fun name => ?_
    exact (h.expressionIn .load ht "value").bind_eq fun value => .pure rfl
  case h_7 | h_8 => exact .pure rfl
  case h_9 => exact h.unsupported ht

omit h in
theorem isSome_parameterName? (ht : L.Like t t') :
    t.parameterName?.isSome = t'.parameterName?.isSome := by
  unfold Tree.parameterName?
  rw [L.kind ht]
  split
  · rfl
  · exact isSome_eq_of_rel (L.firstNamed? ht)
  · exact isSome_eq_of_rel (L.firstNamed? ht)
  · rfl

omit h in
/-- The names of parameters that look alike are both found or both missing. -/
theorem isSome_declaredName? (ht : L.Like t t') :
    t.declaredName?.isSome = t'.declaredName?.isSome := by
  unfold Tree.declaredName?
  rw [L.kind ht]
  split
  · exact isSome_bind_eq (L.firstNamed? ht) fun _ _ hc => isSome_parameterName? hc
  · exact isSome_bind_eq (L.field? ht "name") fun _ _ hc => isSome_parameterName? hc
  · exact isSome_bind_eq (L.field? ht "name") fun _ _ hc => isSome_parameterName? hc
  · exact isSome_parameterName? ht

theorem parameters (ht : L.Like t t')
    (hs : t.declaredNames.map s.slice? = t'.declaredNames.map s'.slice?) :
    Agree L.toAccord Eq (S.parameters (t.field? "parameters"))
      (S'.parameters (t'.field? "parameters")) := by
  unfold Tree.declaredNames at hs
  rcases L.field?_cases ht "parameters" with ⟨h₁, h₂⟩ | ⟨list, list', h₁, h₂, hlist⟩
  · rw [h₁, h₂]
    exact .pure rfl
  · rw [h₁, h₂] at hs ⊢
    have hdeclared := forall₂_filterMap (L.named hlist)
      (fun _ _ hc => isSome_declaredName? hc) (by simpa using hs)
    refine (Agree.mapM hdeclared fun c c' hc => h.parameter hc.1 hc.2).bind_eq fun entries => ?_
    exact .pure rfl

omit h in
theorem typeArguments (ht : L.Like t t') :
    List.Forall₂ L.Like (Scope.typeArguments t) (Scope.typeArguments t') :=
  L.flatMap_named (L.filter_kind (L.named ht) fun kind => kind == "type_parameter")

theorem genericType (context : ExprContext) (ht : L.Like t t') :
    Agree L.toAccord Eq (S.genericType context t) (S'.genericType context t') := by
  unfold Scope.genericType
  rw [isEmpty_eq_of_forall₂ (typeArguments ht)]
  split
  · exact h.unsupported ht
  · refine (h.firstNamed ht).bind fun c c' hc => (h.expression .load hc).bind_eq fun value => ?_
    exact (h.oneOrTuple .load (typeArguments ht)).bind_eq fun index => .pure rfl

theorem yield (ht : L.Like t t') : Agree L.toAccord Eq (S.yield t) (S'.yield t') := by
  unfold Scope.yield
  rw [L.hasToken ht]
  split
  · refine (h.firstNamed ht).bind fun c c' hc => ?_
    exact (h.expression .load hc).bind_eq fun value => .pure rfl
  · have hnamed := L.named ht
    generalize t.named = ts at hnamed ⊢
    generalize t'.named = us at hnamed ⊢
    cases hnamed with
    | nil => exact .pure rfl
    | cons hc _ => exact (h.expression .load hc).bind_eq fun value => .pure rfl

theorem memberType (context : ExprContext) (ht : L.Like t t') (hk : t.kind = "member_type") :
    Agree L.toAccord Eq (S.expressionOf context t .memberType)
      (S'.expressionOf context t' .memberType) := by
  have hs := L.spelled ht
  simp only [Tree.spellings, ← L.kind ht, hk] at hs
  have hnamed := L.named ht
  unfold Scope.expressionOf
  generalize t.named = ts at hnamed hs ⊢
  generalize t'.named = us at hnamed hs ⊢
  rcases hnamed with _ | ⟨hv, _ | ⟨ha, _ | _⟩⟩
  · exact h.unsupported ht
  · exact h.unsupported ht
  · refine (h.text ha (List.cons.inj hs).1).bind_eq fun attr => ?_
    exact (h.expression .load hv).bind_eq fun value => .pure rfl
  · exact h.unsupported ht

theorem unionType (context : ExprContext) (ht : L.Like t t') :
    Agree L.toAccord Eq (S.expressionOf context t .unionType)
      (S'.expressionOf context t' .unionType) := by
  have hnamed := L.named ht
  unfold Scope.expressionOf
  generalize t.named = ts at hnamed ⊢
  generalize t'.named = us at hnamed ⊢
  rcases hnamed with _ | ⟨hl, _ | ⟨hr, _ | _⟩⟩
  · exact h.unsupported ht
  · exact h.unsupported ht
  · refine (h.expression .load hl).bind_eq fun left => ?_
    exact (h.expression .load hr).bind_eq fun right => .pure rfl
  · exact h.unsupported ht

/-- The value of the first child, which is all that a node is made of. -/
theorem wrapped (context : ExprContext) (ht : L.Like t t') (f : Node → Node) :
    Agree L.toAccord Eq
      (do let c ← S.firstNamed t
          let value ← S.expression context c
          return f value)
      (do let c ← S'.firstNamed t'
          let value ← S'.expression context c
          return f value) :=
  (h.firstNamed ht).bind fun _ _ hc => (h.expression context hc).bind_eq fun _ => .pure rfl

theorem expressionOf (context : ExprContext) (ht : L.Like t t') {form : ExpressionForm}
    (hform : (t.kind, form) ∈ ExpressionForm.kinds) :
    Agree L.toAccord Eq (S.expressionOf context t form) (S'.expressionOf context t' form) := by
  cases form with
  | name =>
      have hk : t.kind = "identifier" ∨ t.kind = "keyword_identifier" := by
        simpa [ExpressionForm.kinds] using hform
      exact h.name context ht (L.slice_identifier ht hk)
  | «attribute» =>
      have hs := L.spelled ht
      have hk : t.kind = "attribute" := by simpa [ExpressionForm.kinds] using hform
      simp only [Tree.spellings, ← L.kind ht, hk] at hs
      refine (h.required_text ht hs).bind fun c c' hc => (h.text hc.1 hc.2).bind_eq fun attr => ?_
      exact (h.expressionIn .load ht "object").bind_eq fun object => .pure rfl
  | subscript =>
      refine (h.expressionIn .load ht "value").bind_eq fun value => ?_
      exact (h.oneOrTuple .load (L.fields ht "subscript")).bind_eq fun index => .pure rfl
  | slice => exact (h.expressions .load (L.named ht)).bind_eq fun parts => .pure rfl
  | call => exact h.call ht
  | binary => exact h.binary ht
  | unary => exact h.unary ht
  | negation => exact (h.expressionIn .load ht "argument").bind_eq fun argument => .pure rfl
  | boolean => exact h.boolean ht
  | comparison => exact (h.comparisonParts ht (L.tokens ht) []).bind_eq fun parts => .pure rfl
  | constant => exact .pure rfl
  | string =>
      have hk : t.kind = "string" ∨ t.kind = "concatenated_string" := by
        simpa [ExpressionForm.kinds] using hform
      exact h.string ht hk
  | list => exact (h.expressions context (L.named ht)).bind_eq fun elements => .pure rfl
  | tuple => exact (h.expressions context (L.named ht)).bind_eq fun elements => .pure rfl
  | set => exact (h.expressions .load (L.named ht)).bind_eq fun elements => .pure rfl
  | dictionary =>
      refine (Agree.mapM (L.named ht) fun _ _ hc => h.dictionaryEntry hc).bind_eq fun entries => ?_
      exact .pure rfl
  | comprehension kind => exact h.comprehension kind ht
  | lambda =>
      have hs := L.spelled ht
      have hk : t.kind = "lambda" := by simpa [ExpressionForm.kinds] using hform
      simp only [Tree.spellings, ← L.kind ht, hk] at hs
      refine (h.parameters ht hs).bind_eq fun parameters => ?_
      exact (h.expressionIn .load ht "body").bind_eq fun body => .pure rfl
  | conditional => exact (h.expressions .load (L.named ht)).bind_eq fun parts => .pure rfl
  | wrapper => exact (h.firstNamed ht).bind fun _ _ hc => h.expression context hc
  | genericType => exact h.genericType context ht
  | unionType => exact h.unionType context ht
  | memberType =>
      have hk : t.kind = "member_type" := by simpa [ExpressionForm.kinds] using hform
      exact h.memberType context ht hk
  | splatType =>
      simp only [Scope.expressionOf, L.hasToken ht]
      split
      · exact h.unsupported ht
      · exact h.wrapped .load ht _
  | await => exact h.wrapped .load ht _
  | yield => exact h.yield ht
  | assignment =>
      refine (h.expressionIn .store ht "name").bind_eq fun target => ?_
      exact (h.expressionIn .load ht "value").bind_eq fun value => .pure rfl
  | splat => exact h.wrapped context ht _

theorem expressionNode (context : ExprContext) (ht : L.Like t t') :
    Agree L.toAccord Eq (S.expressionNode context t) (S'.expressionNode context t') := by
  unfold Scope.expressionNode
  rw [← L.kind ht]
  cases hform : ExpressionForm.ofKind? t.kind with
  | some form => exact h.expressionOf context ht (mem_of_lookup_eq_some hform)
  | none => exact h.unsupported ht

end Scope.Agrees

end RenderGate
