import RenderGate.Proofs.Similarity.Longest
import Mathlib.Data.Nat.Notation

/-!
# Windows

A window cuts a stretch out of either sequence.  The common blocks of the two stretches are the
common blocks of the whole sequences that lie in the window, moved to where the stretches start.
-/

namespace RenderGate.Similarity

variable {α : Type}

/-- The elements from place `start` to before place `stop`. -/
def window (start stop : Nat) (xs : List α) : List α := (xs.take stop).drop start

def Block.shift (block : Block) (a b : Nat) : Block :=
  { block with aStart := a + block.aStart, bStart := b + block.bStart }

namespace Window

structure Holds (w : Window) (p : Block) : Prop where
  aStart : w.aStart ≤ p.aStart
  aStop : p.aStart + p.size ≤ w.aStop
  bStart : w.bStart ≤ p.bStart
  bStop : p.bStart + p.size ≤ w.bStop

end Window

theorem lt_of_lt_length_window {start stop k : ℕ} {xs : List α}
    (h : k < (window start stop xs).length) : start + k < stop ∧ start + k < xs.length := by
  rw [window, List.length_drop, List.length_take] at h
  omega

theorem getElem?_window (start stop k : ℕ) (xs : List α) :
    (window start stop xs)[k]? = if start + k < stop then xs[start + k]? else none := by
  rw [window, List.getElem?_drop, List.getElem?_take]

theorem getElem?_of_lt_length_window {start stop k : ℕ} {xs : List α}
    (h : k < (window start stop xs).length) : xs[start + k]? = some (window start stop xs)[k] := by
  have hk := getElem?_window start stop k xs
  rw [if_pos (lt_of_lt_length_window h).1, List.getElem?_eq_getElem h] at hk
  exact hk.symm

theorem mem_window {start stop : ℕ} {x : α} {xs : List α} :
    x ∈ window start stop xs ↔ ∃ i, start ≤ i ∧ i < stop ∧ xs[i]? = some x := by
  rw [List.mem_iff_getElem?]
  constructor
  · rintro ⟨k, hk⟩
    rw [getElem?_window] at hk
    split at hk
    · exact ⟨start + k, Nat.le_add_right _ _, ‹_›, hk⟩
    · exact absurd hk (Option.some_ne_none x).symm
  · rintro ⟨i, hstart, hstop, hi⟩
    refine ⟨i - start, ?_⟩
    rw [getElem?_window, Nat.add_sub_cancel' hstart, if_pos hstop, hi]

theorem le_length_window {start stop n : ℕ} {xs : List α} (hn : 0 < n)
    (h : n ≤ (window start stop xs).length) : start + n ≤ stop ∧ start + n ≤ xs.length := by
  have := lt_of_lt_length_window (k := n - 1) (by omega : n - 1 < (window start stop xs).length)
  omega

/-- The places behind the end of a sequence add nothing to a stretch of it. -/
theorem window_min (start stop : ℕ) (xs : List α) :
    window start (min stop xs.length) xs = window start stop xs := by
  have htake : xs.take (min stop xs.length) = xs.take stop := by
    rw [List.take_eq_take_iff]
    omega
  rw [window, htake, window]

theorem Common.holds_min_iff {as bs : List α} {p : Block} (h : Common as bs p)
    (aStart aStop bStart bStop : ℕ) :
    Window.Holds ⟨aStart, aStop, bStart, min bStop bs.length⟩ p ↔
      Window.Holds ⟨aStart, aStop, bStart, bStop⟩ p := by
  have hright := h.right
  constructor
  · rintro ⟨ha, ha', hb, hb'⟩
    exact ⟨ha, ha', hb, Nat.le_trans hb' (Nat.min_le_left _ _)⟩
  · rintro ⟨ha, ha', hb, hb'⟩
    exact ⟨ha, ha', hb, Nat.le_min.mpr ⟨hb', hright⟩⟩

/-- A common block of two windows is one of the whole sequences that lies in the window. -/
theorem Common.of_window {as bs : List α} {w : Window} {p : Block} (hp : 0 < p.size)
    (h : Common (window w.aStart w.aStop as) (window w.bStart w.bStop bs) p) :
    Common as bs (p.shift w.aStart w.bStart) ∧ w.Holds (p.shift w.aStart w.bStart) := by
  obtain ⟨ha, ha'⟩ := le_length_window (Nat.add_pos_right _ hp) h.left
  obtain ⟨hb, hb'⟩ := le_length_window (Nat.add_pos_right _ hp) h.right
  refine ⟨⟨?_, ?_, fun k hk => ?_⟩, ⟨Nat.le_add_right _ _, ?_, Nat.le_add_right _ _, ?_⟩⟩
  · simp only [Block.shift]
    omega
  · simp only [Block.shift]
    omega
  · have hagree := h.agree k hk
    simp only [Block.shift] at hk ⊢
    rw [getElem?_window, getElem?_window, if_pos (by omega), if_pos (by omega), ← Nat.add_assoc,
      ← Nat.add_assoc] at hagree
    exact hagree
  · simp only [Block.shift]
    omega
  · simp only [Block.shift]
    omega

/-- A common block that lies in a window is one of the two windows. -/
theorem Common.to_window {as bs : List α} {w : Window} {p : Block} (h : Common as bs p)
    (hw : w.Holds p) : Common (window w.aStart w.aStop as) (window w.bStart w.bStop bs)
      ⟨p.aStart - w.aStart, p.bStart - w.bStart, p.size⟩ := by
  obtain ⟨hl, hr, hagree⟩ := h
  obtain ⟨ha, ha', hb, hb'⟩ := hw
  refine ⟨?_, ?_, fun k hk => ?_⟩
  · simp only [window, List.length_drop, List.length_take]
    omega
  · simp only [window, List.length_drop, List.length_take]
    omega
  · simp only at hk ⊢
    rw [getElem?_window, getElem?_window, if_pos (by omega), if_pos (by omega), ← Nat.add_assoc,
      ← Nat.add_assoc, Nat.add_sub_cancel' ha, Nat.add_sub_cancel' hb]
    exact hagree k hk

/-- An element that both sequences hold is a common block. -/
theorem common_of_getElem? {as bs : List α} {x : α} {i j : ℕ} (hi : as[i]? = some x)
    (hj : bs[j]? = some x) : Common as bs ⟨i, j, 1⟩ := by
  refine ⟨(List.getElem?_eq_some_iff.mp hi).1, (List.getElem?_eq_some_iff.mp hj).1, fun k hk => ?_⟩
  obtain rfl : k = 0 := Nat.lt_one_iff.mp hk
  exact hi.trans hj.symm

end RenderGate.Similarity
