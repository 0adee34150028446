import RenderGate.Lowering.Module
import RenderGate.Proofs.Lowering.Statement

/-!
# The number of levels

A lowering with a number of levels refuses what is nested deeper than that.  The number decides
nothing else: of two lowerings of a text the one with fewer levels gives the same tree or the same
error, unless it refuses the text as nested too deep.
-/

namespace RenderGate

open Concrete (Source Tree)

/-- Which errors count as the same, and which are excused. -/
structure Tolerance where
  same : ParseError → ParseError → Prop
  excused : ParseError → Prop

/-- Both results are trees in a given relation or errors that count as the same, or the first one is
an error that is excused. -/
inductive Tolerance.Rel (T : Tolerance) {α β : Type} (R : α → β → Prop) :
    Lowered α → Lowered β → Prop
  | ok {a : α} {b : β} (h : R a b) : Rel T R (.ok a) (.ok b)
  | error {d e : ParseError} (h : T.same d e) : Rel T R (.error d) (.error e)
  | excused {d : ParseError} {r : Lowered β} (h : T.excused d) : Rel T R (.error d) r

def Tolerance.accord (T : Tolerance) : Accord Lowered Lowered where
  Rel := T.Rel
  pure := .ok
  bind h hf := by
    cases h with
    | ok h => exact hf _ _ h
    | error h => exact .error h
    | excused h => exact .excused h

def Accord.likeness {m m' : Type → Type} [Monad m] [Monad m'] [LawfulMonad m] [LawfulMonad m']
    [MonadExcept ParseError m] [MonadExcept ParseError m'] (A : Accord m m') (source : Source)
    (fault : ∀ (t : Tree) {α β : Type} {R : α → β → Prop} (f : Fault),
      (∀ limit, f ≠ .tooDeep limit) →
        A.Rel R (throw (.fault f (source.startOf t))) (throw (.fault f (source.startOf t)))) :
    Likeness source source m m' where
  toAccord := A
  Like := Eq
  kind h := h ▸ rfl
  isNamed h := h ▸ rfl
  role h := h ▸ rfl
  tokens h := h ▸ List.forall₂_refl _
  fields h _ := h ▸ List.forall₂_refl _
  namedBeside h _ := h ▸ List.forall₂_refl _
  spelled h := h ▸ rfl
  prefixed h := h ▸ rfl
  fault h f hf := h ▸ fault _ f hf

namespace Scope

/-- The lowering one level further out, where entering a node does nothing. -/
def outer (scope : Scope Lowered) : Scope Lowered := scope.entered fun _ lower => lower

/-- The lowering with a number of levels, which entering a node uses up. -/
def withLevels (source : Source) (n : ℕ) : Scope Lowered := levels (fun _ lower => lower) source n

theorem withLevels_succ (source : Source) (n : ℕ) :
    withLevels source (n + 1) = (withLevels source n).outer := rfl

section entered

variable {m m' : Type → Type} [Monad m] [Monad m'] [LawfulMonad m] [LawfulMonad m']
  [MonadExcept ParseError m] [MonadExcept ParseError m'] {s s' : Source}
  {L K : Likeness s s' m m'} {S : Scope m} {S' : Scope m'}
  {enter : {α : Type} → Tree → m α → m α} {enter' : {α : Type} → Tree → m' α → m' α}

/-- Scopes agree one level further out if entering a node leads from the one agreement to the
other. -/
theorem Agrees.entered (h : S.Agrees L S') (hlike : ∀ {t t'}, K.Like t t' → L.Like t t')
    (henter : ∀ {t t'} {α : Type} {x : m α} {y : m' α}, K.Like t t' → Agree L.toAccord Eq x y →
      Agree K.toAccord Eq (enter t x) (enter' t' y)) :
    (S.entered enter).Agrees K (S'.entered enter') where
  source := h.source
  source' := h.source'
  statement ht := henter ht (h.statementNode (hlike ht))
  expression context ht := henter ht (h.expressionNode context (hlike ht))
  pattern ht := henter ht (h.patternNode (hlike ht))
  operands token ht := henter ht (h.chainOperands token (hlike ht))

end entered

section withLevels

variable {s s' : Source} {L : Likeness s s' Lowered Lowered}

theorem Agrees.outer {S S' : Scope Lowered} (h : S.Agrees L S') : S.outer.Agrees L S'.outer :=
  h.entered id fun _ hxy => hxy

/-- Two texts agree at every number of levels if they agree where no level is left. -/
theorem agrees_withLevels
    (hdeep : ∀ {t t'} {α : Type}, L.Like t t' →
      Agree L.toAccord (@Eq α) (tooDeep s t) (tooDeep s' t')) (n : ℕ) :
    (withLevels s n).Agrees L (withLevels s' n) := by
  induction n with
  | zero => exact ⟨rfl, rfl, hdeep, fun _ => hdeep, hdeep, fun _ => hdeep⟩
  | succ n ih => exact ih.outer

end withLevels

theorem source_withLevels (source : Source) (n : ℕ) : (withLevels source n).source = source := by
  induction n with
  | zero => rfl
  | succ n ih => exact ih

end Scope

def ParseError.IsTooDeep (e : ParseError) : Prop := ∃ p, e = .fault (.tooDeep nestingLimit) p

/-- One text twice, where the first lowering may refuse it as nested too deep. -/
def fewerLevels (source : Source) : Likeness source source Lowered Lowered :=
  (Tolerance.accord ⟨Eq, ParseError.IsTooDeep⟩).likeness source fun _ _ _ _ _ _ => .error rfl

theorem eq_or_tooDeep_of_agree {source : Source} {α : Type} {x y : Lowered α}
    (h : Agree (fewerLevels source).toAccord Eq x y) :
    x = y ∨ ∃ e : ParseError, e.IsTooDeep ∧ x = .error e := by
  have hrel : Tolerance.Rel ⟨Eq, ParseError.IsTooDeep⟩ Eq x y := h
  cases hrel with
  | ok hab | error hab => exact .inl (congrArg _ hab)
  | excused he => exact .inr ⟨_, he, rfl⟩

theorem Scope.agrees_withLevels_of_le (source : Source) {m n : ℕ} (h : m ≤ n) :
    (withLevels source m).Agrees (fewerLevels source) (withLevels source n) := by
  induction m generalizing n with
  | zero =>
      exact ⟨rfl, source_withLevels source n, fun _ => .excused ⟨_, rfl⟩, fun _ _ =>
        .excused ⟨_, rfl⟩, fun _ => .excused ⟨_, rfl⟩, fun _ _ => .excused ⟨_, rfl⟩⟩
  | succ m ih =>
      cases n with
      | zero => exact absurd h (Nat.not_succ_le_zero m)
      | succ n => exact (ih (Nat.le_of_succ_le_succ h)).outer

def lowerWithLevels (source : Source) (levels : ℕ) (root : Tree) : Lowered Node := do
  return .of .module (← (Scope.withLevels source levels).statements root)

theorem agree_lowerWithLevels (source : Source) {m n : ℕ} (h : m ≤ n) (root : Tree) :
    Agree (fewerLevels source).toAccord Eq (lowerWithLevels source m root)
      (lowerWithLevels source n root) :=
  ((Scope.agrees_withLevels_of_le source h).statements rfl).bind_eq fun _ => .pure rfl

end RenderGate
