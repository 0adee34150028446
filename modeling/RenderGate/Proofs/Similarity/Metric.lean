import RenderGate.Proofs.Similarity.Range
import RenderGate.Proofs.Similarity.Symmetry

/-!
# The edit distance as a metric

Scripts that follow each other are one script, so the edit distance obeys the triangle inequality,
and a script of `n` edits changes the length by at most `n`.  The edit similarity is the distance by
the longer length, taken from 1.  As long as lengths are doubles, rounding does not blur its ends:
it is 1 only for equal texts, and 0 only where nothing of the longer text is kept.
-/

namespace RenderGate.Similarity

open Double

variable {α : Type}

theorem Edit.length_le {as bs : List α} (h : Edit as bs) :
    as.length ≤ bs.length + 1 ∧ bs.length ≤ as.length + 1 := by
  cases h with
  | insert | delete | substitute =>
      simp only [List.length_append, List.length_cons]
      omega

namespace Edits

variable {m n : ℕ} {as bs cs : List α}

theorem trans (h : Edits m as bs) (h' : Edits n bs cs) : Edits (m + n) as cs := by
  induction h with
  | none as => rwa [Nat.zero_add]
  | step first _ ih =>
      rw [Nat.add_right_comm]
      exact .step first (ih h')

theorem length_le (h : Edits n as bs) : as.length ≤ bs.length + n ∧ bs.length ≤ as.length + n := by
  induction h with
  | none as => exact ⟨le_rfl, le_rfl⟩
  | step first _ ih =>
      have hfirst := first.length_le
      omega

theorem eq_of_zero (h : Edits 0 as bs) : as = bs := by
  cases h
  rfl

end Edits

section distance

variable [DecidableEq α] (as bs cs : List α)

theorem edits_distance : Edits (distance as bs) as bs := by
  rw [distance_eq_leastEdits]
  exact edits_leastEdits as bs

theorem distance_le_of_edits {n : ℕ} {as bs : List α} (h : Edits n as bs) : distance as bs ≤ n := by
  rw [distance_eq_leastEdits]
  exact h.leastEdits_le

theorem distance_eq_zero_iff : distance as bs = 0 ↔ as = bs := by
  constructor
  · intro h
    exact (h ▸ edits_distance as bs).eq_of_zero
  · rintro rfl
    exact distance_self as

/-- Any way round is at least as long. -/
theorem distance_triangle : distance as cs ≤ distance as bs + distance bs cs :=
  distance_le_of_edits ((edits_distance as bs).trans (edits_distance bs cs))

theorem sub_length_le_distance : ((as.length : ℤ) - bs.length).natAbs ≤ distance as bs := by
  have h := (edits_distance as bs).length_le
  omega

end distance

section similarity

variable {s t : String}

/-- One formula covers the exit for one empty text, too. -/
theorem editSimilarity_eq (h₀ : 0 < max s.length t.length) (h : max s.length t.length ≤ 2 ^ 53) :
    editSimilarity s t = 1.0 - Float.ofNat (distance s.toList t.toList) /
      Float.ofNat (max s.length t.length) := by
  have hle := distance_le_max s.toList t.toList
  rw [← String.length_toList, ← String.length_toList (s := t)] at h₀ h ⊢
  have hempty : distance s.toList t.toList = max s.toList.length t.toList.length →
      0.0 = 1.0 - Float.ofNat (distance s.toList t.toList) /
        Float.ofNat (max s.toList.length t.toList.length) := fun heq =>
    ((one_sub_ofNat_div_eq_zero_iff hle h h₀).mpr heq).symm
  unfold editSimilarity
  simp only
  generalize s.toList = as at *
  generalize t.toList = bs at *
  cases as with
  | nil =>
      cases bs with
      | nil => exact absurd h₀ (Nat.lt_irrefl 0)
      | cons b bs => exact hempty (Nat.zero_max _).symm
  | cons a as =>
      cases bs with
      | nil => exact hempty ((distance_nil_right _).trans (Nat.max_zero _).symm)
      | cons b bs => exact clampUnit_eq (proportion_ofNat_div hle h h₀).one_sub

theorem eq_of_max_length_eq_zero (h : max s.length t.length = 0) : s = "" ∧ t = "" := by
  rw [Nat.max_eq_zero_iff] at h
  exact ⟨String.length_eq_zero_iff.mp h.1, String.length_eq_zero_iff.mp h.2⟩

theorem editSimilarity_eq_one_iff (h : max s.length t.length ≤ 2 ^ 53) :
    editSimilarity s t = 1.0 ↔ s = t := by
  rcases Nat.eq_zero_or_pos (max s.length t.length) with h₀ | h₀
  · obtain ⟨rfl, rfl⟩ := eq_of_max_length_eq_zero h₀
    exact iff_of_true rfl rfl
  · have hle := distance_le_max s.toList t.toList
    rw [String.length_toList, String.length_toList] at hle
    rw [editSimilarity_eq h₀ h, one_sub_ofNat_div_eq_one_iff hle h h₀, distance_eq_zero_iff,
      String.toList_inj]

/-- Nothing is kept of the longer text, and there is one. -/
theorem editSimilarity_eq_zero_iff (h : max s.length t.length ≤ 2 ^ 53) (hne : s ≠ "" ∨ t ≠ "") :
    editSimilarity s t = 0.0 ↔ distance s.toList t.toList = max s.length t.length := by
  have h₀ : 0 < max s.length t.length := by
    refine Nat.pos_of_ne_zero fun heq => ?_
    obtain ⟨hs, ht⟩ := eq_of_max_length_eq_zero heq
    exact hne.elim (absurd hs) (absurd ht)
  have hle := distance_le_max s.toList t.toList
  rw [String.length_toList, String.length_toList] at hle
  rw [editSimilarity_eq h₀ h, one_sub_ofNat_div_eq_zero_iff hle h h₀]

end similarity

/-- The edit distance is a metric on texts, and it lies between the difference of their lengths and
the longer one.  The similarity it yields is symmetric; as long as lengths are doubles, it is 1 only
for equal texts, and 0 only where the distance is the length of the longer text. -/
theorem distance_metric (r s t : String) :
    distance r.toList s.toList = distance s.toList r.toList ∧
      (distance r.toList s.toList = 0 ↔ r = s) ∧
      distance r.toList t.toList ≤ distance r.toList s.toList + distance s.toList t.toList ∧
      ((r.length : ℤ) - s.length).natAbs ≤ distance r.toList s.toList ∧
      distance r.toList s.toList ≤ max r.length s.length ∧
      editSimilarity r s = editSimilarity s r ∧
      (max r.length s.length < 2 ^ 53 →
        (editSimilarity r s = 1.0 ↔ r = s) ∧
        (r ≠ "" ∨ s ≠ "" →
          (editSimilarity r s = 0.0 ↔ distance r.toList s.toList = max r.length s.length))) := by
  have hlower := sub_length_le_distance r.toList s.toList
  have hupper := distance_le_max r.toList s.toList
  rw [String.length_toList, String.length_toList] at hlower hupper
  refine ⟨distance_comm _ _, ?_, distance_triangle _ _ _, hlower, hupper, editSimilarity_comm r s,
    fun h => ⟨editSimilarity_eq_one_iff h.le, editSimilarity_eq_zero_iff h.le⟩⟩
  rw [distance_eq_zero_iff, String.toList_inj]

/-- Texts that share a letter, though at other places, are neither equal nor without similarity. -/
theorem distance_metric_shared :
    editSimilarity "flaw" "lawn" ≠ 1.0 ∧ editSimilarity "flaw" "lawn" ≠ 0.0 ∧
      editSimilarity "flaw" "" = 0.0 := by
  obtain ⟨hone, hzero⟩ := (distance_metric "flaw" "lawn" "").2.2.2.2.2.2 (by decide)
  have hempty := ((distance_metric "flaw" "" "").2.2.2.2.2.2 (by decide)).2 (.inl (by decide))
  exact ⟨mt hone.mp (by decide), mt (hzero (.inl (by decide))).mp (by decide),
    hempty.mpr (by decide)⟩

end RenderGate.Similarity
