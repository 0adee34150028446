import RenderGate.Proofs.Double.Mean
import RenderGate.Proofs.Double.Order
import RenderGate.Proofs.Similarity.Composite
import RenderGate.Proofs.Similarity.Identity

/-!
# The range of similarities

Every similarity lies between 0 and 1.  An edit distance does not exceed the longer length, and a
difference of two metrics that are not negative does not exceed the larger one; a mean and a
weighted mean stay where their parts are.
-/

namespace RenderGate

open Double

namespace Similarity

/-- The longer sequence bounds the edit distance: it may be written over the shorter one. -/
theorem distance_le_max {α : Type} [DecidableEq α] (as bs : List α) :
    distance as bs ≤ max as.length bs.length := by
  induction as generalizing bs with
  | nil =>
      rw [distance_nil_left]
      exact le_max_right _ _
  | cons x xs ih =>
      cases bs with
      | nil =>
          rw [distance_nil_right]
          exact le_max_left _ _
      | cons b bs =>
          have hrest := ih bs
          have hlen : max (x :: xs).length (b :: bs).length = max xs.length bs.length + 1 := by
            rw [List.length_cons, List.length_cons, Nat.add_max_add_right]
          rw [distance_cons_cons, hlen]
          refine (Nat.min_le_left _ _).trans ?_
          split <;> omega

theorem clampUnit_eq {x : Float} (h : Proportion x) : clampUnit x = x := by
  have h₀ : ¬ x < 0.0 := by
    rw [lt_iff h.finite rfl, rat_zero]
    exact not_lt.mpr h.rat_nonneg
  have h₁ : ¬ 1.0 < x := by
    rw [lt_iff rfl h.finite, rat_one]
    exact not_lt.mpr h.rat_le_one
  rw [clampUnit, if_neg h₀, if_neg h₁]

theorem proportion_editSimilarity {s t : String} (hs : s.length ≤ 2 ^ 128)
    (ht : t.length ≤ 2 ^ 128) : Proportion (editSimilarity s t) := by
  rw [← String.length_toList] at hs ht
  unfold editSimilarity
  generalize s.toList = as at hs ⊢
  generalize t.toList = bs at ht ⊢
  simp only
  split
  · exact proportion_one
  split
  · exact proportion_zero
  · rename_i hne hor
    rw [Bool.or_eq_true, not_or, List.isEmpty_iff, List.isEmpty_iff] at hor
    have hpos : 1 ≤ as.length := List.length_pos_iff.mpr hor.1
    have hle := distance_le_max as bs
    have hlonger : max as.length bs.length ≤ 2 ^ 128 := max_le hs ht
    have hdistance := nearest_ofNat (natCast_le_largest (hle.trans hlonger))
    have hlength := nearest_ofNat (natCast_le_largest hlonger)
    have hone := hlength.one_le (by exact_mod_cast hpos.trans (le_max_left _ _))
    have hdiv := Part.proportion_div ⟨hdistance.finite, hdistance.nonneg (Nat.cast_nonneg _),
      hdistance.rounds.mono hlength.rounds (by exact_mod_cast hle)⟩ (by linarith)
    rw [clampUnit_eq hdiv.one_sub]
    exact hdiv.one_sub

/-- A metric as it is compared: finite and not negative. -/
def Metric (x : Float) : Prop := x.isFinite = true ∧ 0 ≤ rat x

theorem metric_ofNat {n : ℕ} (h : n ≤ 2 ^ 128) : Metric (Float.ofNat n) :=
  have hn := nearest_ofNat (natCast_le_largest h)
  ⟨hn.finite, hn.nonneg (Nat.cast_nonneg n)⟩

theorem larger_spec {x y : Float} (hx : x.isFinite = true) (hy : y.isFinite = true) :
    (larger x y).isFinite = true ∧ rat (larger x y) = max (rat x) (rat y) := by
  unfold larger
  rw [isNaN_of_isFinite hx, isNaN_of_isFinite hy, if_neg Bool.false_ne_true,
    if_neg Bool.false_ne_true]
  split
  · rename_i hlt
    exact ⟨hy, (max_eq_right ((lt_iff hx hy).mp hlt).le).symm⟩
  · rename_i hlt
    exact ⟨hx, (max_eq_left (not_lt.mp fun h => hlt ((lt_iff hx hy).mpr h))).symm⟩

/-- What the similarity of two metrics is made of: the rounded difference, which is a part of the
larger one. -/
theorem relative?_spec {x y z : Float} (hx : Metric x) (hy : Metric y)
    (h : relative? x y = some z) : ∃ scale, z = 1.0 - (x - y).abs / scale ∧ 0 < rat scale ∧
      rat scale = max (rat x) (rat y) ∧ Part (x - y).abs scale ∧
      Nearest |rat x - rat y| (x - y).abs := by
  obtain ⟨hx, hx₀⟩ := hx
  obtain ⟨hy, hy₀⟩ := hy
  obtain ⟨hf, hmax⟩ := larger_spec hx hy
  unfold relative? at h
  simp only at h
  generalize larger x y = scale at h hf hmax
  split at h
  · rename_i hpos
    rw [lt_iff rfl hf, rat_zero] at hpos
    -- The exact difference is no larger than the scale, which is a double.
    have hdiff : |rat x - rat y| ≤ rat scale := by
      rw [hmax]
      exact abs_le.mpr ⟨by linarith [le_max_right (rat x) (rat y)],
        by linarith [le_max_left (rat x) (rat y)]⟩
    have hlargest : rat scale ≤ largest := (le_abs_self _).trans (abs_rat_le_largest scale)
    have hsub := nearest_sub hx hy (hdiff.trans hlargest)
    have habs : Nearest |rat x - rat y| (x - y).abs :=
      ⟨isFinite_abs hsub.finite, by rw [rat_abs]; exact hsub.rounds.abs⟩
    have hpart : Part (x - y).abs scale :=
      ⟨habs.finite, habs.nonneg (abs_nonneg _),
        habs.le_of_representable (representable_rat scale) hdiff⟩
    exact ⟨scale, (Option.some.inj h).symm, hpos, hmax, hpart, habs⟩
  · exact absurd h (Option.some_ne_none z).symm

theorem proportion_of_relative? {x y z : Float} (hx : Metric x) (hy : Metric y)
    (h : relative? x y = some z) : Proportion z := by
  obtain ⟨scale, rfl, hpos, -, hpart, -⟩ := relative?_spec hx hy h
  exact (hpart.proportion_div hpos).one_sub

theorem proportion_of_mean? {xs : List Float} {y : Float} (hxs : ∀ x ∈ xs, Proportion x)
    (h : mean? xs = some y) : Proportion y := by
  unfold mean? at h
  split at h
  · exact absurd h (Option.some_ne_none y).symm
  · rename_i hempty
    rw [← Option.some.inj h]
    exact proportion_mean hxs fun hnil => hempty (List.isEmpty_iff.mpr hnil)

theorem proportion_of_histograms? {s t : Table Nat} {y : Float}
    (hs : ∀ key, Metric (Float.ofNat ((s.get? key).getD 0)))
    (ht : ∀ key, Metric (Float.ofNat ((t.get? key).getD 0))) (h : histograms? s t = some y) :
    Proportion y := by
  refine proportion_of_mean? (fun x hx => ?_) h
  obtain ⟨key, -, hkey⟩ := List.mem_filterMap.mp hx
  exact proportion_of_relative? (hs key) (ht key) hkey

end Similarity

namespace Fingerprint

open Similarity

structure Comparable (f : Fingerprint) : Prop where
  scalar : ∀ m ∈ f.scalarMetrics, Metric m.2
  count : ∀ key, Metric (Float.ofNat (f.countOf key))

theorem proportion_of_mem_values_compare {f g : Fingerprint} (hf : f.Comparable)
    (hg : g.Comparable) : ∀ x ∈ (f.compare g).breakdown.values, Proportion x := by
  intro x hx
  obtain ⟨e, he, rfl⟩ := List.mem_map.mp hx
  rcases List.mem_append.mp (Table.mem_of_mem_entries_ofList he) with he | he
  · obtain ⟨p, hp, hpe⟩ := List.mem_filterMap.mp he
    obtain ⟨hleft, hright⟩ := List.of_mem_zip (a := p.1) (b := p.2) hp
    obtain ⟨y, hy, rfl⟩ := Option.map_eq_some_iff.mp hpe
    exact proportion_of_relative? (hf.scalar _ hleft) (hg.scalar _ hright) hy
  · obtain ⟨y, hy, rfl⟩ := Option.map_eq_some_iff.mp (Option.mem_toList.mp he)
    exact proportion_of_histograms? hf.count hg.count hy

/-- The score of two fingerprints, if they have one. -/
theorem proportion_score_compare {f g : Fingerprint} (hf : f.Comparable) (hg : g.Comparable) :
    ∀ y ∈ (f.compare g).score, Proportion y :=
  fun _ hs => proportion_of_mean? (proportion_of_mem_values_compare hf hg) hs

theorem proportion_score_getD_compare {f g : Fingerprint} (hf : f.Comparable)
    (hg : g.Comparable) : Proportion ((f.compare g).score.getD 1.0) := by
  cases hs : (f.compare g).score with
  | none => exact proportion_one
  | some y => exact proportion_score_compare hf hg y hs

end Fingerprint

namespace Node

open Similarity

theorem comparable_fingerprint {n : Node} (h : n.size ≤ 2 ^ 64) : n.fingerprint.Comparable := by
  refine ⟨fun m hm => ?_, fun key => ?_⟩
  · obtain ⟨k, hk, hmk⟩ := exists_eq_ofNat_of_mem_scalarMetrics h hm
    rw [hmk]
    exact metric_ofNat hk
  · have hcount := n.countOf_fingerprint_le key
    exact metric_ofNat (by omega)

end Node

structure Signals.InRange (s : Signals) : Prop where
  token : Proportion s.token
  edit : Proportion s.edit
  structural : Proportion s.structural

theorem Signals.inRange_uniform {x : Float} (h : Proportion x) : (uniform x).InRange := ⟨h, h, h⟩

/-- The signals of two trees whose token texts are not longer than a machine word can tell. -/
theorem Node.inRange_assess {s t : Node} (hs : (Tokens.joined s.tokens).length < 2 ^ 64)
    (ht : (Tokens.joined t.tokens).length < 2 ^ 64) :
    (s.summary.assess t.summary).signals.InRange := by
  have hlen := Tokens.length_le_length_joined s.ne_empty_of_mem_tokens
  have hlen' := Tokens.length_le_length_joined t.ne_empty_of_mem_tokens
  have hnodes := s.size_le_length_tokens
  have hnodes' := t.size_le_length_tokens
  constructor
  · have hsum : s.tokens.length + t.tokens.length ≤ 2 ^ 128 := by omega
    exact Similarity.proportion_ratio hsum
  · exact Similarity.proportion_editSimilarity (s := Tokens.joined s.tokens)
      (t := Tokens.joined t.tokens) (by omega) (by omega)
  · exact Fingerprint.proportion_score_getD_compare (s.comparable_fingerprint (by omega))
      (t.comparable_fingerprint (by omega))

namespace Weights

variable {w : Weights}

theorem isFinite_partial_sum (h : w.fault? = none) : (w.token + w.edit).isFinite = true :=
  (nonneg_partial_sum h).isFinite_of_add (.inl (finite_structural h)) (isFinite_sum h)

/-- The terms for the first two signals are a part of the first two weights. -/
theorem part_partial_sum (h : w.fault? = none) {s : Signals} (hs : s.InRange) :
    Part (s.token * w.token + s.edit * w.edit) (w.token + w.edit) := by
  obtain ⟨ht, ht₀⟩ := finite_token h
  obtain ⟨he, he₀⟩ := finite_edit h
  exact (hs.token.part_mul ht ht₀).add (hs.edit.part_mul he he₀) ht he (isFinite_partial_sum h)

/-- The weighted sum of proportions is a part of the sum of the weights. -/
theorem part_sum (h : w.fault? = none) {s : Signals} (hs : s.InRange) :
    Part (s.token * w.token + s.edit * w.edit + s.structural * w.structural) w.sum := by
  obtain ⟨hst, hst₀⟩ := finite_structural h
  exact (part_partial_sum h hs).add (hs.structural.part_mul hst hst₀) (isFinite_partial_sum h) hst
    (isFinite_sum h)

/-- Usable weights bring proportions to a proportion. -/
theorem proportion_composite (h : w.fault? = none) {s : Signals} (hs : s.InRange) :
    Proportion (w.composite s) := by
  have hdiv := (part_sum h hs).proportion_div (sum_pos h)
  rw [composite_eq (divides_of_usable h), total, Similarity.clampUnit_eq hdiv]
  exact hdiv

end Weights

end RenderGate
