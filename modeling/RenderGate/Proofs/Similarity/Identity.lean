import RenderGate.Proofs.Double.Sum
import RenderGate.Proofs.Node.Counts
import RenderGate.Proofs.Similarity.EditDistance
import RenderGate.Proofs.Similarity.Ratio
import RenderGate.Similarity.Signals

/-!
# Comparison of equals

Every similarity of a thing with itself is exactly 1.  A text is at distance 0 from itself, and a
metric differs from itself by 0.
-/

namespace RenderGate

open Double

namespace Similarity

theorem distance_self {α : Type} [DecidableEq α] (as : List α) : distance as as = 0 := by
  induction as with
  | nil => rw [distance_nil_left, List.length_nil]
  | cons x xs ih => rw [distance_cons_cons, ih, if_pos rfl, Nat.zero_add, Nat.zero_min]

/-- A difference of nothing, taken from 1 and measured by anything, leaves 1. -/
theorem one_sub_div_eq_one {d x : Float} (hd : d.isFinite = true) (hd₀ : rat d = 0)
    (hx : rat x ≠ 0) : 1.0 - d / x = 1.0 := by
  have hdiv := nearest_div hd hx (by rw [hd₀, zero_div, abs_zero]; linarith [one_le_largest])
  rw [hd₀, zero_div] at hdiv
  have hrat : rat (d / x) = 0 := hdiv.rounds.unique Rounds.zero
  have hsub := nearest_sub (x := 1.0) rfl hdiv.finite (by
    rw [rat_one, hrat, sub_zero, abs_one]
    exact one_le_largest)
  rw [rat_one, hrat, sub_zero] at hsub
  exact (nearest_one.eq hsub (by rw [rat_one]; norm_num)).symm

theorem editSimilarity_self {s : String} (h : s.length < 2 ^ 64) : editSimilarity s s = 1.0 := by
  unfold editSimilarity
  simp only [distance_self, Nat.max_self]
  have hlen : s.toList.length < 2 ^ 64 := by rwa [String.length_toList]
  cases hs : s.toList with
  | nil => rfl
  | cons c cs =>
      rw [hs] at hlen
      have hpos : 1 ≤ (c :: cs).length := List.length_pos_of_mem List.mem_cons_self
      have hzero := nearest_ofNat (n := 0) (natCast_le_largest (by norm_num))
      have hn := nearest_ofNat (n := (c :: cs).length) (natCast_le_largest (by omega))
      have hone := hn.one_le (by exact_mod_cast hpos)
      have hrat := rat_ofNat (n := 0) (by norm_num)
      rw [if_neg (by simp), if_neg (by simp), one_sub_div_eq_one hzero.finite (by simpa using hrat)
        (by linarith)]
      decide

/-- A metric with itself yields 1, if it yields anything. -/
theorem eq_one_of_relative?_self {x y : Float} (hx : x.isFinite = true)
    (h : relative? x x = some y) : y = 1.0 := by
  have hlarger : larger x x = x := by
    unfold larger
    split
    · rfl
    · split <;> rfl
  unfold relative? at h
  simp only [hlarger] at h
  split at h
  · rename_i hpos
    have hpos' := (lt_iff rfl hx).mp hpos
    rw [rat_zero] at hpos'
    have hsub := nearest_sub hx hx (by rw [sub_self, abs_zero]; linarith [one_le_largest])
    rw [sub_self] at hsub
    have hrat : rat (x - x) = 0 := hsub.rounds.unique Rounds.zero
    have hone : 1.0 - (x - x).abs / x = 1.0 :=
      one_sub_div_eq_one (isFinite_abs hsub.finite) (by rw [rat_abs, hrat, abs_zero]) hpos'.ne'
    rw [hone] at h
    exact (Option.some.inj h).symm
  · exact absurd h (Option.some_ne_none y).symm

/-- The mean of ones is 1. -/
theorem eq_one_of_mean? {xs : List Float} {y : Float} (hxs : ∀ x ∈ xs, x = 1.0)
    (hlen : xs.length ≤ 2 ^ 53) (h : mean? xs = some y) : y = 1.0 := by
  unfold mean? at h
  split at h
  · exact absurd h (Option.some_ne_none y).symm
  · rename_i hempty
    have hpos : 1 ≤ xs.length := List.length_pos_iff.mpr fun he => hempty (by rw [he]; rfl)
    have hsum := nearest_foldl_ones hlen
    rw [← List.eq_replicate_of_mem hxs] at hsum
    have hn := nearest_ofNat (n := xs.length) (natCast_le_largest (by omega))
    have heq : xs.foldl (· + ·) 0.0 = Float.ofNat xs.length :=
      hsum.eq hn (by linarith [hsum.one_le (by exact_mod_cast hpos)])
    rw [heq, div_self_eq hn.finite (by linarith [hn.one_le (by exact_mod_cast hpos)])] at h
    exact (Option.some.inj h).symm

theorem eq_one_of_histograms?_self {s : Table Nat} {y : Float}
    (hcount : ∀ key, (Float.ofNat ((s.get? key).getD 0)).isFinite = true)
    (hkeys : s.keys.length ≤ 2 ^ 53) (h : histograms? s s = some y) : y = 1.0 := by
  unfold histograms? at h
  refine eq_one_of_mean? (fun x hx => ?_) ?_ h
  · obtain ⟨key, -, hkey⟩ := List.mem_filterMap.mp hx
    exact eq_one_of_relative?_self (hcount key) hkey
  · have hsub : (Table.ofList ((s.keys ++ s.keys).map fun key => (key, ()))).keys ⊆ s.keys := by
      intro key hkey
      obtain ⟨e, he, rfl⟩ := List.mem_map.mp (Table.mem_of_mem_keys_ofList hkey)
      obtain ⟨k, hk, rfl⟩ := List.mem_map.mp he
      exact (List.mem_append.mp hk).elim id id
    exact (List.length_filterMap_le _ _).trans
      (((List.subperm_of_subset (Table.nodup_keys _) hsub).length_le).trans hkeys)

end Similarity

namespace Fingerprint

theorem mem_zip_self {α : Type} {xs : List α} {p : α × α} (h : p ∈ xs.zip xs) :
    p.1 ∈ xs ∧ p.2 = p.1 := by
  induction xs with
  | nil => exact absurd h List.not_mem_nil
  | cons x xs ih =>
      rcases List.mem_cons.mp h with rfl | h
      · exact ⟨List.mem_cons_self, rfl⟩
      · exact ⟨List.mem_cons_of_mem x (ih h).1, (ih h).2⟩

/-- There are six metrics and the histogram. -/
theorem length_values_compare_le (f g : Fingerprint) :
    (f.compare g).breakdown.values.length ≤ 7 := by
  rw [Table.values, List.length_map]
  refine (Table.length_entries_ofList_le _).trans ?_
  rw [List.length_append]
  exact Nat.add_le_add (List.length_filterMap_le _ (f.scalarMetrics.zip g.scalarMetrics))
    Option.length_toList_le

theorem eq_one_of_mem_values_compare_self {f : Fingerprint} (hf : f.Measurable) :
    ∀ x ∈ (f.compare f).breakdown.values, x = 1.0 := by
  intro x hx
  obtain ⟨e, he, rfl⟩ := List.mem_map.mp hx
  rcases List.mem_append.mp (Table.mem_of_mem_entries_ofList he) with he | he
  · obtain ⟨p, hp, hpe⟩ := List.mem_filterMap.mp he
    obtain ⟨hmem, heq⟩ := mem_zip_self hp
    obtain ⟨y, hy, rfl⟩ := Option.map_eq_some_iff.mp hpe
    rw [heq] at hy
    exact Similarity.eq_one_of_relative?_self (hf.scalar _ hmem) hy
  · obtain ⟨y, hy, rfl⟩ := Option.map_eq_some_iff.mp (Option.mem_toList.mp he)
    exact Similarity.eq_one_of_histograms?_self hf.count hf.types hy

/-- A fingerprint has the score 1 with itself, or none. -/
theorem score_compare_self {f : Fingerprint} (hf : f.Measurable) :
    (f.compare f).score.getD 1.0 = 1.0 := by
  cases hs : (f.compare f).score with
  | none => rfl
  | some y =>
      refine Similarity.eq_one_of_mean? (eq_one_of_mem_values_compare_self hf) ?_ hs
      exact (length_values_compare_le f f).trans (by norm_num)

end Fingerprint

namespace Summary

/-- The signals of a summary with itself. -/
theorem signals_assess_self {s : Summary} (hf : s.fingerprint.Measurable)
    (ht : s.tokens.length < 2 ^ 64) (hj : (Tokens.joined s.tokens).length < 2 ^ 64) :
    (s.assess s).signals = .uniform 1.0 := by
  have hstructural := Fingerprint.score_compare_self hf
  show (⟨_, _, (s.fingerprint.compare s.fingerprint).score.getD 1.0⟩ : Signals) = _
  rw [Similarity.ratio_self ht, Similarity.editSimilarity_self hj, hstructural]
  rfl

end Summary

end RenderGate
