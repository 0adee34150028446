import Mathlib.Data.List.Chain
import Mathlib.Data.List.Forall2
import RenderGate.Lowering.FormattedString

/-!
# Literal text between values

A formatted string is put together piece by piece.  Literal text is noted when it comes, and the
constant for it is set down before the next value or at the end.  So one constant stands for each
run of literal text, however many pieces it has, and for no run that is empty.
-/

namespace RenderGate

variable {α : Type} {gives : α → Node → Prop}

/-- The constant that stands for a run of literal pieces, if there are any. -/
def constants (literals : ℕ) : List Node := if literals = 0 then [] else [.leaf .constant]

/-- One value for each piece that gives one, in order, and constants for the runs of literal pieces
(`none`) before, between and after them. -/
inductive Interleaves (gives : α → Node → Prop) : List (Option α) → List Node → Prop
  | last (literals : ℕ) : Interleaves gives (.replicate literals none) (constants literals)
  | next (literals : ℕ) {a : α} {value : Node} {pieces : List (Option α)} {ns : List Node}
      (hvalue : gives a value) (hrest : Interleaves gives pieces ns) :
      Interleaves gives (.replicate literals none ++ some a :: pieces)
        (constants literals ++ value :: ns)

namespace Interleaves

/-- A run of literal pieces may be longer. -/
theorem literal {pieces : List (Option α)} {ns : List Node}
    (h : Interleaves gives (none :: pieces) ns) :
    Interleaves gives (none :: none :: pieces) ns := by
  generalize hps : none :: pieces = ps at h
  cases h with
  | last literals =>
      cases literals with
      | zero => exact absurd hps (List.cons_ne_nil _ _)
      | succ k => exact .last (k + 2)
  | next literals hvalue hrest =>
      cases literals with
      | zero => exact absurd (List.cons.inj hps).1 (Option.some_ne_none _).symm
      | succ k => exact .next (k + 2) hvalue hrest

theorem forall_mem {p : Node → Prop} {pieces : List (Option α)} {ns : List Node}
    (h : Interleaves (fun _ n => p n) pieces ns) (hp : p (.leaf .constant)) :
    ∀ n ∈ ns, p n := by
  have hconstants (literals : ℕ) : ∀ n ∈ constants literals, p n := by
    unfold constants
    split
    · exact List.forall_mem_nil p
    · exact List.forall_mem_singleton.mpr hp
  induction h with
  | last literals => exact hconstants literals
  | next literals hvalue _ ih =>
      exact List.forall_mem_append.mpr
        ⟨hconstants literals, List.forall_mem_cons.mpr ⟨hvalue, ih⟩⟩

end Interleaves

namespace Scope

/-- What is put together from some state on: the text that is noted counts as one more piece. -/
theorem interleaves_foldl {pieces : List (Option α)} {values : List (Option Node)}
    (h : List.Forall₂ (Option.Rel gives) pieces values) (j : Joined) :
    ∃ ns, (values.foldl Joined.add j).flush.nodes.toList = j.nodes.toList ++ ns ∧
      Interleaves gives (if j.pending then none :: pieces else pieces) ns := by
  induction h generalizing j with
  | nil =>
      obtain ⟨nodes, pending⟩ := j
      cases pending with
      | false => exact ⟨[], (List.append_nil _).symm, .last 0⟩
      | true => exact ⟨[.leaf .constant], Array.toList_push, .last 1⟩
  | cons hpiece _ ih =>
      cases hpiece with
      | none =>
          obtain ⟨ns, heq, hns⟩ := ih (j.add none)
          refine ⟨ns, heq, ?_⟩
          cases hj : j.pending with
          | false => exact hns
          | true => exact .literal hns
      | @some a value hvalue =>
          obtain ⟨ns, heq, hns⟩ := ih (j.add (some value))
          obtain ⟨nodes, pending⟩ := j
          refine ⟨constants pending.toNat ++ value :: ns, ?_, ?_⟩
          · rw [List.foldl_cons, heq]
            cases pending with
            | false => simp [Joined.add, Joined.flush, constants]
            | true => simp [Joined.add, Joined.flush, constants]
          · cases pending with
            | false => exact .next 0 hvalue hns
            | true => exact .next 1 hvalue hns

theorem interleaves_joinPieces {pieces : List (Option α)} {values : List (Option Node)}
    (h : List.Forall₂ (Option.Rel gives) pieces values) :
    Interleaves gives pieces (joinPieces values) := by
  obtain ⟨ns, heq, hns⟩ := interleaves_foldl h ⟨#[], false⟩
  rwa [joinPieces, heq]

theorem forall_mem_joinPieces {p : Node → Prop} (hp : p (.leaf .constant))
    {pieces : List (Option Node)} (h : ∀ piece ∈ pieces, ∀ n ∈ piece, p n) :
    ∀ n ∈ joinPieces pieces, p n := by
  have hpieces : List.Forall₂ (Option.Rel fun (_ : Node) n => p n) pieces pieces := by
    refine List.forall₂_same.mpr fun piece hpiece => ?_
    cases piece with
    | none => exact .none
    | some n => exact .some (h _ hpiece n rfl)
  exact (interleaves_joinPieces hpieces).forall_mem hp

end Scope

end RenderGate
