import RenderGate.Proofs.Double.Proportion
import RenderGate.Proofs.Similarity.Matched

/-!
# The ratio of matched elements

The ratio is a fraction of two counts, and doubling the first count is exact.  So the ratio lies
between 0 and 1, and as long as the second count is a double itself, the bounds are reached only
where all elements are matched, or none.
-/

namespace RenderGate.Similarity

open Double

variable {α : Type} [DecidableEq α]

/-- The exits for empty sequences, and the fraction for all others. -/
theorem ratio_cases (as bs : List α) (h : as.length + bs.length ≤ 2 ^ 128) :
    (as = [] ∧ bs = [] ∧ ratio as bs = 1.0) ∨
      (as ≠ bs ∧ as.Disjoint bs ∧ ratio as bs = 0.0) ∨
      (as ≠ [] ∧ bs ≠ [] ∧ ratio as bs =
        Float.ofNat (matched as bs + matched as bs) / Float.ofNat (as.length + bs.length)) := by
  cases as with
  | nil =>
      cases bs with
      | nil => exact .inl ⟨rfl, rfl, rfl⟩
      | cons y ys =>
          exact .inr (.inl ⟨(List.cons_ne_nil y ys).symm, List.disjoint_nil_left _, rfl⟩)
  | cons x xs =>
      cases bs with
      | nil => exact .inr (.inl ⟨List.cons_ne_nil x xs, List.disjoint_nil_right _, rfl⟩)
      | cons y ys =>
          have hle := matched_le (x :: xs) (y :: ys)
          refine .inr (.inr ⟨List.cons_ne_nil x xs, List.cons_ne_nil y ys, ?_⟩)
          rw [← two_mul_ofNat (natCast_le_largest (by omega))]
          rfl

variable {as bs : List α}

theorem ratio_self (h : as.length < 2 ^ 64) : ratio as as = 1.0 := by
  rcases ratio_cases as as (by omega) with ⟨-, -, hr⟩ | ⟨hne, -⟩ | ⟨hne, -, hr⟩
  · exact hr
  · exact absurd rfl hne
  · have hpos : 0 < as.length := List.length_pos_iff.mpr hne
    have hn := nearest_ofNat (n := as.length + as.length) (natCast_le_largest (by omega))
    have hone := hn.one_le (by exact_mod_cast Nat.le_add_right_of_le hpos)
    rw [hr, matched_self]
    exact div_self_eq hn.finite (by linarith)

theorem proportion_ratio (h : as.length + bs.length ≤ 2 ^ 128) : Proportion (ratio as bs) := by
  obtain ⟨hleft, hright⟩ := matched_le as bs
  rcases ratio_cases as bs h with ⟨-, -, hr⟩ | ⟨-, -, hr⟩ | ⟨hne, -, hr⟩
  · rw [hr]
    exact proportion_one
  · rw [hr]
    exact proportion_zero
  · have hpos : 0 < as.length := List.length_pos_iff.mpr hne
    have htotal := nearest_ofNat (natCast_le_largest h)
    have hone := htotal.one_le (by exact_mod_cast Nat.le_add_right_of_le hpos)
    have htwice := nearest_ofNat (n := matched as bs + matched as bs)
      (natCast_le_largest (by omega))
    rw [hr]
    exact Part.proportion_div ⟨htwice.finite, htwice.nonneg (Nat.cast_nonneg _),
      htwice.rounds.mono htotal.rounds (by exact_mod_cast Nat.add_le_add hleft hright)⟩
      (by linarith)

theorem ratio_eq_one_iff (h : as.length + bs.length < 2 ^ 53) : ratio as bs = 1.0 ↔ as = bs := by
  have hzero : (0.0 : Float) ≠ 1.0 := by decide
  rcases ratio_cases as bs (by omega) with ⟨rfl, rfl, hr⟩ | ⟨hne, -, hr⟩ | ⟨hne, -, hr⟩
  · exact iff_of_true hr rfl
  · exact iff_of_false (hr ▸ hzero) hne
  · have hle := matched_le as bs
    have hpos : 0 < as.length := List.length_pos_iff.mpr hne
    rw [hr, ofNat_div_ofNat_eq_one_iff (by omega) h.le (by omega), matched_add_matched_eq_iff]

theorem ratio_eq_zero_iff (h : as.length + bs.length < 2 ^ 53) :
    ratio as bs = 0.0 ↔ as.Disjoint bs ∧ ¬(as = [] ∧ bs = []) := by
  have hone : (1.0 : Float) ≠ 0.0 := by decide
  rcases ratio_cases as bs (by omega) with ⟨rfl, rfl, hr⟩ | ⟨hne, hd, hr⟩ | ⟨hne, -, hr⟩
  · exact iff_of_false (hr ▸ hone) fun hd => hd.2 ⟨rfl, rfl⟩
  · exact iff_of_true hr ⟨hd, fun hnil => hne (hnil.1.trans hnil.2.symm)⟩
  · have hle := matched_le as bs
    have hpos : 0 < as.length := List.length_pos_iff.mpr hne
    rw [hr, ofNat_div_ofNat_eq_zero_iff (by omega) h.le (by omega), ← matched_eq_zero_iff,
      and_iff_left fun hnil => hne hnil.1, Nat.add_eq_zero_iff, and_self_iff]

/-- What is matched lies between the longest common block and the longest common subsequence; it is
nothing only of sequences without a common element and everything only of equal ones.  With it, the
ratio is 0 or 1 only there, as long as the number of all elements is a double. -/
theorem matched_between (as bs : List α) :
    (∃ n, IsGreatest (commonBlockLengths as bs) n ∧ n ≤ matched as bs) ∧
      (∃ n, IsGreatest (commonSubsequenceLengths as bs) n ∧ matched as bs ≤ n) ∧
      matched as bs ≤ min as.length bs.length ∧
      (matched as bs = 0 ↔ as.Disjoint bs) ∧
      (2 * matched as bs = as.length + bs.length ↔ as = bs) ∧
      (as.length + bs.length < 2 ^ 53 →
        0.0 ≤ ratio as bs ∧ ratio as bs ≤ 1.0 ∧ (ratio as bs = 1.0 ↔ as = bs) ∧
          (ratio as bs = 0.0 ↔ as.Disjoint bs ∧ ¬(as = [] ∧ bs = []))) := by
  obtain ⟨n, hn⟩ := exists_isGreatest_commonSubsequenceLengths as bs
  refine ⟨⟨_, isGreatest_longest as bs, (common_longest as bs).size_le_matched⟩,
    ⟨n, hn, hn.2 (exists_sublist_length_eq_matched as bs)⟩,
    le_min (matched_le as bs).1 (matched_le as bs).2, matched_eq_zero_iff as bs, ?_, fun h => ?_⟩
  · rw [two_mul]
    exact matched_add_matched_eq_iff as bs
  · have hratio : Proportion (ratio as bs) := proportion_ratio (by omega)
    exact ⟨hratio.nonneg, hratio.le_one, ratio_eq_one_iff h, ratio_eq_zero_iff h⟩

/-- Sequences that overlap are neither equal nor without a common element. -/
theorem matched_between_overlap :
    0.0 ≤ ratio ['a', 'b'] ['b', 'c'] ∧ ratio ['a', 'b'] ['b', 'c'] ≤ 1.0 ∧
      ratio ['a', 'b'] ['b', 'c'] ≠ 1.0 ∧ ratio ['a', 'b'] ['b', 'c'] ≠ 0.0 := by
  obtain ⟨hnonneg, hle, hone, hzero⟩ :=
    (matched_between ['a', 'b'] ['b', 'c']).2.2.2.2.2 (by decide)
  have hmem : 'b' ∈ ['a', 'b'] ∧ 'b' ∈ ['b', 'c'] := by decide
  exact ⟨hnonneg, hle, mt hone.mp (by decide), fun h => (hzero.mp h).1 hmem.1 hmem.2⟩

end RenderGate.Similarity
