import RenderGate.Proofs.Similarity.Edits
import RenderGate.Similarity.EditDistance
import RenderGate.Similarity.Search

/-!
# The table of edit distances

A cell of the table holds the least number of edits between two beginnings.  Of a row that is being
overwritten only the cells up to a place are known to hold that (`Filled`), which is all that the
next cell is computed from; what is left of an older row is never read.  Beginnings grow at their
ends, so the recursion that tells the least number of edits is used on the reversed beginnings.
-/

namespace RenderGate.Similarity

variable {α : Type} [DecidableEq α]

/-- The cells of a row up to place `j` hold the least numbers of edits that turn a beginning of the
longer text, given in reverse, into the beginnings of the shorter one. -/
structure Filled (us shorter : List α) (j : ℕ) (row : Array ℕ) : Prop where
  size : row.size = shorter.length + 1
  cells : ∀ k, k ≤ j → row.getD k 0 = leastEdits us (shorter.take k).reverse

namespace Filled

variable {us shorter : List α} {above row : Array ℕ} {j : ℕ}

/-- To turn nothing into the beginnings of a text, all their elements are inserted. -/
theorem first (shorter : List α) :
    Filled [] shorter shorter.length (.range (shorter.length + 1)) := by
  refine ⟨Array.size_range, fun k hk => ?_⟩
  rw [leastEdits_nil_left, List.length_reverse, List.length_take_of_le hk,
    Array.getD_eq_getD_getElem?, Array.getElem?_range, if_pos (Nat.lt_succ_of_le hk),
    Option.getD_some]

/-- The first cell of a row: all elements of a beginning are deleted. -/
theorem leftmost (us : List α) (hsize : row.size = shorter.length + 1) :
    Filled us shorter 0 (row.setIfInBounds 0 us.length) := by
  refine ⟨by rw [Array.size_setIfInBounds, hsize], fun k hk => ?_⟩
  obtain rfl : k = 0 := Nat.le_zero.mp hk
  rw [getD_setIfInBounds _ _ _ _ (by omega), if_pos rfl, List.take_zero, List.reverse_nil,
    leastEdits_nil_right]

/-- One more cell is overwritten. -/
theorem cell (x : α) (habove : Filled us shorter shorter.length above)
    (hrow : Filled (x :: us) shorter j row) (hj : j < shorter.length) :
    Filled (x :: us) shorter (j + 1) (row.setIfInBounds (j + 1)
      (cell x shorter[j] (above.getD j 0) (above.getD (j + 1) 0) (row.getD j 0))) := by
  refine ⟨by rw [Array.size_setIfInBounds, hrow.size], fun k hk => ?_⟩
  rw [getD_setIfInBounds _ _ _ _ (by have := hrow.size; omega)]
  split
  · rename_i hkj
    rw [habove.cells j hj.le, habove.cells (j + 1) hj, hrow.cells j le_rfl, hkj,
      List.take_succ_eq_append_getElem hj, List.reverse_append, List.reverse_singleton,
      List.singleton_append, leastEdits_cons_cons]
    exact min_assoc _ _ _
  · exact hrow.cells k (by omega)

/-- A whole row is overwritten. -/
theorem overwrite (x : α) (habove : Filled us shorter shorter.length above) {ys : List α}
    (hrow : Filled (x :: us) shorter j row) (hys : shorter.drop j = ys) :
    Filled (x :: us) shorter shorter.length (overwrite x above j ys row) := by
  induction ys generalizing j row with
  | nil =>
      have hj := List.drop_eq_nil_iff.mp hys
      exact ⟨hrow.size, fun k hk => hrow.cells k (hk.trans hj)⟩
  | cons y ys ih =>
      have hj : j < shorter.length := by
        refine Nat.lt_of_not_le fun hle => ?_
        rw [List.drop_of_length_le hle] at hys
        exact List.cons_ne_nil y ys hys.symm
      rw [List.drop_eq_getElem_cons hj, List.cons.injEq] at hys
      rw [Similarity.overwrite, ← hys.1]
      exact ih (habove.cell x hrow hj) hys.2

/-- All rows are computed; the row that is overwritten may hold anything. -/
theorem lastRow {previous current : Array ℕ} (xs : List α)
    (hprevious : Filled us shorter shorter.length previous)
    (hcurrent : current.size = shorter.length + 1) :
    Filled (xs.reverse ++ us) shorter shorter.length
      (lastRow shorter us.length xs previous current) := by
  induction xs generalizing us previous current with
  | nil => exact hprevious
  | cons x xs ih =>
      rw [Similarity.lastRow, List.reverse_cons, List.append_assoc, List.singleton_append]
      have hrow := hprevious.overwrite x (leftmost (x :: us) hcurrent) List.drop_zero
      exact ih hrow hprevious.size

end Filled

theorem getD_lastRow (longer shorter : List α) :
    (lastRow shorter 0 longer (.range (shorter.length + 1))
      (.replicate (shorter.length + 1) 0)).getD shorter.length 0 = leastEdits longer shorter := by
  have h := (Filled.first shorter).lastRow longer (Array.size_replicate (v := 0))
  rw [List.append_nil] at h
  rw [← leastEdits_reverse, ← List.take_length (l := shorter), ← h.cells _ le_rfl, List.take_length]
  rfl

/-- The table tells what the recursion tells, whichever of the texts is the longer one. -/
theorem distance_eq_leastEdits (as bs : List α) : distance as bs = leastEdits as bs := by
  unfold distance
  split
  · rename_i h
    rw [List.isEmpty_iff.mp h, leastEdits_nil_left]
  split
  · rename_i h
    rw [List.isEmpty_iff.mp h, leastEdits_nil_right]
  rw [getD_lastRow]
  split
  · rfl
  · exact leastEdits_comm bs as

/-- To turn the empty sequence into another one, all its elements are inserted. -/
theorem distance_nil_left (bs : List α) : distance [] bs = bs.length := rfl

/-- To turn a sequence into the empty one, all its elements are deleted. -/
theorem distance_nil_right (as : List α) : distance as [] = as.length := by
  rw [distance_eq_leastEdits, leastEdits_nil_right]

/-- The first elements are substituted, or the one of either sequence is deleted or inserted. -/
theorem distance_cons_cons (x b : α) (xs bs : List α) :
    distance (x :: xs) (b :: bs) =
      min (distance xs bs + if x = b then 0 else 1)
        (min (distance xs (b :: bs) + 1) (distance (x :: xs) bs + 1)) := by
  simp only [distance_eq_leastEdits, leastEdits_cons_cons]

/-- The distance is the least number of insertions, deletions and substitutions that turn one
sequence into the other, and what the recursion over the first elements tells. -/
theorem isLeast_distance (as bs : List α) :
    IsLeast {n | Edits n as bs} (distance as bs) ∧ distance as bs = leastEdits as bs := by
  have h := distance_eq_leastEdits as bs
  exact ⟨h ▸ isLeast_leastEdits as bs, h⟩

example : distance ['f', 'l', 'a', 'w'] ['l', 'a', 'w', 'n'] = 2 := by decide

end RenderGate.Similarity
