import RenderGate.Similarity.Blocks

/-!
# Common blocks and runs

For every pair of places there is a longest common stretch that ends there, the run.  Every run is a
common block, and no common block exceeds the run that ends where it ends.  So the best block among
the runs seen so far can be kept from place to place (`Best`), and once all runs are seen it is a
common block that no other one exceeds in size, and of all blocks of its size the one that starts
first in the first sequence and then first in the second.
-/

namespace RenderGate.Similarity

variable {α : Type}

/-- A block that lies inside both sequences and covers the same elements of either. -/
structure Common (as bs : List α) (block : Block) : Prop where
  left : block.aStart + block.size ≤ as.length
  right : block.bStart + block.size ≤ bs.length
  agree : ∀ k, k < block.size → as[block.aStart + k]? = bs[block.bStart + k]?

theorem getElem?_reverse_take {as : List α} {i k : Nat} (hi : i ≤ as.length) (hk : k < i) :
    (as.take i).reverse[k]? = as[i - 1 - k]? := by
  have hlen : (as.take i).length = i := List.length_take_of_le hi
  rw [List.getElem?_reverse (by omega), hlen, List.getElem?_take_of_lt (by omega)]

/-- The stretches that end at the element `p.1` of the first sequence and the element `p.2` of the
second, of those seen before the search has come to `i` and `j`. -/
def Seen (bs : List α) (i j : Nat) (p : Nat × Nat) : Prop :=
  (p.1 < i ∧ p.2 < bs.length) ∨ (p.1 = i ∧ p.2 < j)

theorem Seen.of_succ {bs : List α} {i j : Nat} {p : Nat × Nat} (h : Seen bs i (j + 1) p) :
    Seen bs i j p ∨ p = (i, j) := by
  rcases h with h | ⟨h₁, h₂⟩
  · exact .inl (.inl h)
  · rcases Nat.lt_succ_iff_lt_or_eq.mp h₂ with h | h
    · exact .inl (.inr ⟨h₁, h⟩)
    · exact .inr (Prod.ext h₁ h)

theorem Seen.succ {bs : List α} {i j : Nat} {p : Nat × Nat} (h : Seen bs i j p) :
    Seen bs i (j + 1) p :=
  h.imp_right fun ⟨h₁, h₂⟩ => ⟨h₁, Nat.lt_succ_of_lt h₂⟩

theorem Common.seen {as bs : List α} {block : Block} (h : Common as bs block)
    (h₀ : 0 < block.size) :
    Seen bs as.length 0 (block.aStart + block.size - 1, block.bStart + block.size - 1) := by
  obtain ⟨hl, hr, -⟩ := h
  left
  constructor
  · simp only
    omega
  · simp only
    omega

variable [DecidableEq α]

/-- The length of the longest stretch with which both lists begin. -/
def shared : List α → List α → Nat
  | x :: xs, y :: ys => if x = y then shared xs ys + 1 else 0
  | _, _ => 0

theorem shared_nil_right (xs : List α) : shared xs [] = 0 := by
  cases xs <;> rfl

theorem shared_le_left (xs ys : List α) : shared xs ys ≤ xs.length := by
  induction xs generalizing ys with
  | nil => exact Nat.le_refl 0
  | cons x xs ih =>
      cases ys with
      | nil => exact Nat.zero_le _
      | cons y ys =>
          rw [shared]
          split
          · exact Nat.succ_le_succ (ih ys)
          · exact Nat.zero_le _

theorem shared_le_right (xs ys : List α) : shared xs ys ≤ ys.length := by
  induction xs generalizing ys with
  | nil => exact Nat.zero_le _
  | cons x xs ih =>
      cases ys with
      | nil => exact Nat.le_refl 0
      | cons y ys =>
          rw [shared]
          split
          · exact Nat.succ_le_succ (ih ys)
          · exact Nat.zero_le _

theorem getElem?_of_lt_shared {xs ys : List α} {k : Nat} (h : k < shared xs ys) :
    xs[k]? = ys[k]? := by
  induction xs generalizing ys k with
  | nil => exact absurd h (Nat.not_lt_zero k)
  | cons x xs ih =>
      cases ys with
      | nil => exact absurd h (Nat.not_lt_zero k)
      | cons y ys =>
          rw [shared] at h
          split at h
          · rename_i hxy
            cases k with
            | zero => rw [hxy, List.getElem?_cons_zero, List.getElem?_cons_zero]
            | succ k =>
                rw [List.getElem?_cons_succ, List.getElem?_cons_succ]
                exact ih (Nat.lt_of_succ_lt_succ h)
          · exact absurd h (Nat.not_lt_zero k)

theorem le_shared {xs ys : List α} {n : Nat} (hx : n ≤ xs.length) (hy : n ≤ ys.length)
    (h : ∀ k, k < n → xs[k]? = ys[k]?) : n ≤ shared xs ys := by
  induction n generalizing xs ys with
  | zero => exact Nat.zero_le _
  | succ n ih =>
      cases xs with
      | nil => exact absurd hx (Nat.not_succ_le_zero n)
      | cons x xs =>
          cases ys with
          | nil => exact absurd hy (Nat.not_succ_le_zero n)
          | cons y ys =>
              have hxy : x = y := by
                have := h 0 (Nat.succ_pos n)
                rwa [List.getElem?_cons_zero, List.getElem?_cons_zero, Option.some.injEq] at this
              rw [shared, if_pos hxy]
              refine Nat.succ_le_succ
                (ih (Nat.le_of_succ_le_succ hx) (Nat.le_of_succ_le_succ hy) ?_)
              intro k hk
              have := h (k + 1) (Nat.succ_lt_succ hk)
              rwa [List.getElem?_cons_succ, List.getElem?_cons_succ] at this

/-- The length of the longest common stretch that ends before place `i` of the first sequence and
before place `j` of the second. -/
def endingAt (as bs : List α) (i j : Nat) : Nat := shared (as.take i).reverse (bs.take j).reverse

section endingAt

variable {as bs : List α} {i j : Nat}

theorem endingAt_zero_left (as bs : List α) (j : Nat) : endingAt as bs 0 j = 0 := rfl

theorem endingAt_zero_right (as bs : List α) (i : Nat) : endingAt as bs i 0 = 0 :=
  shared_nil_right _

theorem endingAt_succ (hi : i < as.length) (hj : j < bs.length) :
    endingAt as bs (i + 1) (j + 1) = if as[i] = bs[j] then endingAt as bs i j + 1 else 0 := by
  unfold endingAt
  rw [List.take_succ_eq_append_getElem hi, List.take_succ_eq_append_getElem hj,
    List.reverse_append, List.reverse_append]
  rfl

theorem endingAt_le_left (hi : i ≤ as.length) : endingAt as bs i j ≤ i := by
  have h := shared_le_left (as.take i).reverse (bs.take j).reverse
  rwa [List.length_reverse, List.length_take_of_le hi] at h

theorem endingAt_le_right (hj : j ≤ bs.length) : endingAt as bs i j ≤ j := by
  have h := shared_le_right (as.take i).reverse (bs.take j).reverse
  rwa [List.length_reverse, List.length_take_of_le hj] at h

/-- Every run is a common block. -/
theorem common_endingAt (hi : i ≤ as.length) (hj : j ≤ bs.length) :
    Common as bs ⟨i - endingAt as bs i j, j - endingAt as bs i j, endingAt as bs i j⟩ := by
  have hle : endingAt as bs i j ≤ i := endingAt_le_left hi
  have hle' : endingAt as bs i j ≤ j := endingAt_le_right hj
  refine ⟨by simp only; omega, by simp only; omega, fun k hk => ?_⟩
  simp only at hk ⊢
  have h := getElem?_of_lt_shared (k := endingAt as bs i j - 1 - k)
    (show endingAt as bs i j - 1 - k < endingAt as bs i j by omega)
  rw [getElem?_reverse_take hi (by omega), getElem?_reverse_take hj (by omega)] at h
  rw [show i - endingAt as bs i j + k = i - 1 - (endingAt as bs i j - 1 - k) by omega, h]
  congr 1
  omega

/-- No common block exceeds the run that ends where it ends. -/
theorem Common.le_endingAt {block : Block} (h : Common as bs block) :
    block.size ≤ endingAt as bs (block.aStart + block.size) (block.bStart + block.size) := by
  obtain ⟨hl, hr, hagree⟩ := h
  refine le_shared ?_ ?_ fun k hk => ?_
  · rw [List.length_reverse, List.length_take_of_le hl]
    omega
  · rw [List.length_reverse, List.length_take_of_le hr]
    omega
  · rw [getElem?_reverse_take hl (by omega), getElem?_reverse_take hr (by omega)]
    have := hagree (block.size - 1 - k) (by omega)
    rw [show block.aStart + block.size - 1 - k = block.aStart + (block.size - 1 - k) by omega, this]
    congr 1
    omega

end endingAt

structure Best (as bs : List α) (i j : Nat) (best : Block) : Prop where
  common : Common as bs best
  largest : ∀ p, Seen bs i j p → endingAt as bs (p.1 + 1) (p.2 + 1) ≤ best.size
  first : ∀ p, Seen bs i j p → endingAt as bs (p.1 + 1) (p.2 + 1) = best.size → 0 < best.size →
    best.StartsFirst ⟨p.1 + 1 - best.size, p.2 + 1 - best.size, best.size⟩
  found : 0 < best.size →
    Seen bs i j (best.aStart + best.size - 1, best.bStart + best.size - 1)
  nothing : best.size = 0 → best = ⟨0, 0, 0⟩

namespace Best

variable {as bs : List α} {i j : Nat} {best : Block}

theorem start (as bs : List α) : Best as bs 0 0 ⟨0, 0, 0⟩ := by
  refine ⟨⟨Nat.zero_le _, Nat.zero_le _, fun k hk => absurd hk (Nat.not_lt_zero k)⟩, ?_, ?_, ?_, ?_⟩
  · rintro p (⟨h, -⟩ | ⟨-, h⟩)
    · exact absurd h (Nat.not_lt_zero _)
    · exact absurd h (Nat.not_lt_zero _)
  · exact fun p _ _ h => absurd h (Nat.lt_irrefl 0)
  · exact fun h => absurd h (Nat.lt_irrefl 0)
  · exact fun _ => rfl

/-- One more run is looked at. -/
theorem improve {run : Nat} (h : Best as bs i j best) (hi : i < as.length) (hj : j < bs.length)
    (hrun : endingAt as bs (i + 1) (j + 1) = run) :
    Best as bs i (j + 1)
      (if best.size < run then ⟨i + 1 - run, j + 1 - run, run⟩ else best) := by
  have hrl : run ≤ i + 1 := hrun ▸ endingAt_le_left hi
  have hrr : run ≤ j + 1 := hrun ▸ endingAt_le_right hj
  split
  · -- The new stretch is longer than all that were seen before.
    rename_i hlt
    refine ⟨?_, fun p hp => ?_, fun p hp he _ => ?_, fun _ => ?_, fun h₀ => ?_⟩
    · rw [← hrun]
      exact common_endingAt hi hj
    · rcases hp.of_succ with hp | rfl
      · exact Nat.le_trans (h.largest p hp) (Nat.le_of_lt hlt)
      · exact Nat.le_of_eq hrun
    · rcases hp.of_succ with hp | rfl
      · have hle := h.largest p hp
        simp only at he
        omega
      · exact .inr ⟨rfl, Nat.le_refl _⟩
    · right
      constructor
      · simp only
        omega
      · simp only
        omega
    · simp only at h₀
      omega
  · rename_i hle
    refine ⟨h.common, fun p hp => ?_, fun p hp he h₀ => ?_, fun h₀ => (h.found h₀).succ,
      h.nothing⟩
    · rcases hp.of_succ with hp | rfl
      · exact h.largest p hp
      · rw [hrun]
        omega
    · rcases hp.of_succ with hp | rfl
      · exact h.first p hp he h₀
      · -- A stretch seen before ends at an earlier place.
        rcases h.found h₀ with ⟨h₁, -⟩ | ⟨h₁, h₂⟩
        · left
          simp only at h₁ ⊢
          omega
        · right
          simp only at h₁ h₂ ⊢
          omega

/-- Places at which no run ends are passed over. -/
theorem skip {j' : Nat} (h : Best as bs i j best) (hj : j ≤ j')
    (hnone : ∀ k, j ≤ k → k < j' → endingAt as bs (i + 1) (k + 1) = 0) :
    Best as bs i j' best := by
  have hseen : ∀ p, Seen bs i j' p →
      Seen bs i j p ∨ endingAt as bs (p.1 + 1) (p.2 + 1) = 0 := by
    rintro p (hp | ⟨hp, hp'⟩)
    · exact .inl (.inl hp)
    · rcases Nat.lt_or_ge p.2 j with hlt | hge
      · exact .inl (.inr ⟨hp, hlt⟩)
      · exact .inr (hp ▸ hnone p.2 hge hp')
  refine ⟨h.common, fun p hp => ?_, fun p hp he h₀ => ?_, fun h₀ => ?_, h.nothing⟩
  · rcases hseen p hp with hp | hp
    · exact h.largest p hp
    · exact hp ▸ Nat.zero_le _
  · rcases hseen p hp with hp | hp
    · exact h.first p hp he h₀
    · exact absurd (he.symm.trans hp) (Nat.ne_of_gt h₀)
  · exact (h.found h₀).imp_right fun ⟨h₁, h₂⟩ => ⟨h₁, Nat.lt_of_lt_of_le h₂ hj⟩

theorem nextRow (h : Best as bs i bs.length best) : Best as bs (i + 1) 0 best := by
  have hseen : ∀ p, Seen bs (i + 1) 0 p ↔ Seen bs i bs.length p := by
    intro p
    unfold Seen
    omega
  exact ⟨h.common, fun p hp => h.largest p ((hseen p).mp hp),
    fun p hp => h.first p ((hseen p).mp hp), fun h₀ => (hseen _).mpr (h.found h₀), h.nothing⟩

/-- Once all runs are seen, no common block is longer than the best one. -/
theorem size_le {p : Block} (h : Best as bs as.length 0 best) (hp : Common as bs p) :
    p.size ≤ best.size := by
  rcases Nat.eq_zero_or_pos p.size with h₀ | h₀
  · rw [h₀]
    exact Nat.zero_le _
  · have hle := h.largest _ (hp.seen h₀)
    simp only [show p.aStart + p.size - 1 + 1 = p.aStart + p.size by omega,
      show p.bStart + p.size - 1 + 1 = p.bStart + p.size by omega] at hle
    exact Nat.le_trans hp.le_endingAt hle

/-- Once all runs are seen, the best block starts first among the common blocks of its size. -/
theorem startsFirst {p : Block} (h : Best as bs as.length 0 best) (hp : Common as bs p)
    (hs : p.size = best.size) : best.StartsFirst p := by
  rcases Nat.eq_zero_or_pos best.size with h₀ | h₀
  · rw [h.nothing h₀]
    unfold Block.StartsFirst
    simp only
    omega
  · have hseen := hp.seen (hs ▸ h₀)
    have hle := h.largest _ hseen
    have hfirst := h.first _ hseen
    simp only [show p.aStart + p.size - 1 + 1 = p.aStart + p.size by omega,
      show p.bStart + p.size - 1 + 1 = p.bStart + p.size by omega] at hle hfirst
    have := hfirst (Nat.le_antisymm hle (hs ▸ hp.le_endingAt)) h₀
    rw [← hs, Nat.add_sub_cancel, Nat.add_sub_cancel] at this
    exact this

end Best

end RenderGate.Similarity
