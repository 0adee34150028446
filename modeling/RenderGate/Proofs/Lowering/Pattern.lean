import RenderGate.Proofs.Lowering.Expression

/-!
# Agreement of patterns

Every step of lowering a pattern, a case or a `match` statement keeps agreement.
-/

namespace RenderGate

open Concrete (Source Tree)

theorem PatternForm.eq_dotted_name {kind : String} (h : ofKind kind = .dottedName) :
    kind = "dotted_name" := by
  unfold ofKind at h
  cases hform : kinds.lookup kind with
  | none =>
      rw [hform] at h
      exact absurd h nofun
  | some form =>
      rw [hform, Option.getD_some] at h
      have hmem := mem_of_lookup_eq_some hform
      simpa [kinds, h] using hmem

namespace Scope.Agrees

variable {m m' : Type → Type} [Monad m] [Monad m'] [LawfulMonad m] [LawfulMonad m']
  [MonadExcept ParseError m] [MonadExcept ParseError m'] {s s' : Source} {L : Likeness s s' m m'}
  {S : Scope m} {S' : Scope m'} (h : S.Agrees L S') {t t' : Tree}
include h

theorem dottedAttributes {ts us : List Tree} (hts : List.Forall₂ (fun c c' => L.Like c c' ∧
    s.slice? c = s'.slice? c') ts us) (value : Node) :
    Agree L.toAccord Eq (S.dottedAttributes value ts) (S'.dottedAttributes value us) := by
  induction hts generalizing value with
  | nil => exact .pure rfl
  | cons hc _ ih => exact (h.text hc.1 hc.2).bind_eq fun attr => ih _

theorem dottedValue (ht : L.Like t t') (hk : t.kind = "dotted_name") :
    Agree L.toAccord Eq (S.dottedValue t) (S'.dottedValue t') := by
  have hs := L.spelled ht
  simp only [Tree.spellings, ← L.kind ht, hk] at hs
  have hnamed := forall₂_and_map (L.named ht) hs
  unfold Scope.dottedValue
  generalize t.named = ts at hnamed ⊢
  generalize t'.named = us at hnamed ⊢
  cases hnamed with
  | nil => exact h.unsupported ht
  | cons hc hcs =>
      exact (h.name .load hc.1 hc.2).bind_eq fun first => h.dottedAttributes hcs first

theorem classPart (ht : L.Like t t') :
    Agree L.toAccord Eq (S.classPart t) (S'.classPart t') := by
  unfold Scope.classPart
  rw [← L.kind ht]
  split
  · exact h.dottedValue ht ‹_›
  · exact h.pattern ht

theorem mappingPart (ht : L.Like t t') :
    Agree L.toAccord Eq (S.mappingPart t) (S'.mappingPart t') := by
  unfold Scope.mappingPart
  rw [← L.kind ht, L.role ht]
  split
  · exact .pure rfl
  · split
    · split
      · exact h.dottedValue ht ‹_›
      · exact h.expression .load ht
    · exact h.pattern ht

/-- Patterns one after the other. -/
theorem patterns {ts us : List Tree} (hts : List.Forall₂ L.Like ts us) :
    Agree L.toAccord Eq (ts.mapM S.pattern) (us.mapM S'.pattern) :=
  .mapM hts fun _ _ hc => h.pattern hc

theorem patternOf (ht : L.Like t t') {form : PatternForm}
    (hform : PatternForm.ofKind t.kind = form) :
    Agree L.toAccord Eq (S.patternOf t form) (S'.patternOf t' form) := by
  cases form with
  | case =>
      have hnamed := L.named ht
      unfold Scope.patternOf
      generalize t.named = ts at hnamed ⊢
      generalize t'.named = us at hnamed ⊢
      rcases hnamed with _ | ⟨hc, _ | _⟩
      · exact .pure rfl
      · exact h.pattern hc
      · exact h.unsupported ht
  | «alias» =>
      refine (h.firstNamed ht).bind fun c c' hc => ?_
      exact (h.pattern hc).bind_eq fun inner => .pure rfl
  | capture => exact .pure rfl
  | dottedName =>
      have hvalue := h.dottedValue ht (PatternForm.eq_dotted_name hform)
      have hnamed := L.named ht
      unfold Scope.patternOf
      generalize t.named = ts at hnamed ⊢
      generalize t'.named = us at hnamed ⊢
      rcases hnamed with _ | ⟨_, _ | _⟩
      · exact hvalue.bind_eq fun value => .pure rfl
      · exact .pure rfl
      · exact hvalue.bind_eq fun value => .pure rfl
  | singleton => exact .pure rfl
  | complex => exact .pure rfl
  | splat => exact .pure rfl
  | sequence => exact (h.patterns (L.named ht)).bind_eq fun parts => .pure rfl
  | union => exact (h.patterns (L.named ht)).bind_eq fun parts => .pure rfl
  | keyword =>
      unfold Scope.patternOf
      rcases rel_cases (rel_getLast? (L.named ht)) with
        ⟨h₁, h₂⟩ | ⟨value, value', h₁, h₂, hvalue⟩
      · rw [h₁, h₂]
        exact h.unsupported ht
      · rw [h₁, h₂]
        exact h.pattern hvalue
  | ofClass =>
      refine (Agree.mapM (L.named ht) fun _ _ hc => h.classPart hc).bind_eq fun parts => ?_
      exact .pure rfl
  | mapping =>
      refine (Agree.mapM (L.named ht) fun _ _ hc => h.mappingPart hc).bind_eq fun parts => ?_
      exact .pure rfl
  | value => exact (h.expression .load ht).bind_eq fun value => .pure rfl

theorem patternNode (ht : L.Like t t') :
    Agree L.toAccord Eq (S.patternNode t) (S'.patternNode t') := by
  unfold Scope.patternNode
  rw [← L.kind ht]
  exact h.patternOf ht rfl

theorem casePattern {ts us : List Tree} (hts : List.Forall₂ L.Like ts us) :
    Agree L.toAccord Eq (S.casePattern ts) (S'.casePattern us) := by
  rcases hts with _ | ⟨hc, _ | ⟨hd, hds⟩⟩
  · exact (h.patterns .nil).bind_eq fun parts => .pure rfl
  · exact h.pattern hc
  · exact (h.patterns (.cons hc (.cons hd hds))).bind_eq fun parts => .pure rfl

theorem matchCase (ht : L.Like t t') :
    Agree L.toAccord Eq (S.matchCase t) (S'.matchCase t') := by
  refine (h.casePattern (L.filter_kind (L.named ht) fun kind => kind == "case_pattern")).bind_eq
    fun pattern => ?_
  rcases L.field?_cases ht "guard" with ⟨h₁, h₂⟩ | ⟨g, g', h₁, h₂, hg⟩
  · rw [h₁, h₂]
    refine Agree.bind_eq (.pure rfl) fun guard => ?_
    exact (h.suite ht "consequence").bind_eq fun body => .pure rfl
  · rw [h₁, h₂]
    refine (h.firstNamed hg).bind fun c c' hc => ?_
    refine ((h.expression .load hc).map_eq List.singleton).bind_eq fun guard => ?_
    exact (h.suite ht "consequence").bind_eq fun body => .pure rfl

theorem matchStatement (ht : L.Like t t') :
    Agree L.toAccord Eq (S.matchStatement t) (S'.matchStatement t') := by
  refine (h.oneOrTuple .load (L.fields ht "subject")).bind_eq fun subject => ?_
  refine (h.required ht "body").bind fun body body' hbody => ?_
  have hclauses := L.filter_kind (L.named hbody) fun kind => kind == "case_clause"
  exact (Agree.mapM hclauses fun _ _ hc => h.matchCase hc).bind_eq fun cases => .pure rfl

end Scope.Agrees

end RenderGate
