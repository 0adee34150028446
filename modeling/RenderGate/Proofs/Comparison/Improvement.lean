import RenderGate.Proofs.Comparison.Gate
import RenderGate.Proofs.Similarity.Range

/-!
# Better signals

Under usable weights a signal that grows never lowers the composite, so it never makes a pair fail
that passes.  The composite is exactly 0 for signals that are all 0 and exactly 1 for signals that
are all 1.  Weights that are not usable may overflow or cancel, but they do not bring the composite
out of the range from 0 to 1.
-/

namespace RenderGate

open Double

/-- What is cut off to the range from 0 to 1 lies in it, if it is a number at all. -/
theorem Similarity.proportion_clampUnit {x : Float} (h : x.isNaN = false) :
    Proportion (clampUnit x) := by
  unfold clampUnit
  split
  · exact proportion_zero
  · rename_i h₀
    split
    · exact proportion_one
    · rename_i h₁
      exact proportion_of_not_lt h h₀ h₁

/-- No signal is smaller. -/
structure Signals.Le (s s' : Signals) : Prop where
  token : s.token ≤ s'.token
  edit : s.edit ≤ s'.edit
  structural : s.structural ≤ s'.structural

namespace Weights

variable {w : Weights} {s s' : Signals}

theorem composite_eq_zero (h : ¬ w.Divides) (s : Signals) : w.composite s = 0.0 := by
  refine if_pos ?_
  rw [Bool.or_eq_true, Bool.not_eq_true', decide_eq_true_eq]
  by_contra hguard
  obtain ⟨hpos, hfinite⟩ := not_or.mp hguard
  exact h ⟨hpos, Bool.not_eq_false _ ▸ hfinite⟩

section usable

/-- The weighted sum grows with the signals. -/
theorem rat_total_le (h : w.fault? = none) (hs : s.InRange) (hs' : s'.InRange) (hle : s.Le s') :
    rat (w.total s) ≤ rat (w.total s') := by
  obtain ⟨ht, ht₀⟩ := finite_token h
  obtain ⟨he, he₀⟩ := finite_edit h
  obtain ⟨hst, hst₀⟩ := finite_structural h
  have htoken := hs.token.rat_mul_le_mul hs'.token ht ht₀
    ((le_iff hs.token.finite hs'.token.finite).mp hle.token)
  have hedit := hs.edit.rat_mul_le_mul hs'.edit he he₀
    ((le_iff hs.edit.finite hs'.edit.finite).mp hle.edit)
  have hstructural := hs.structural.rat_mul_le_mul hs'.structural hst hst₀
    ((le_iff hs.structural.finite hs'.structural.finite).mp hle.structural)
  have hpartial := part_partial_sum h hs
  have hpartial' := part_partial_sum h hs'
  have hfirst := rat_add_le_add (hs.token.nearest_mul ht).finite (hs.edit.nearest_mul he).finite
    (hs'.token.nearest_mul ht).finite (hs'.edit.nearest_mul he).finite hpartial.finite
    hpartial'.finite htoken hedit
  exact rat_add_le_add hpartial.finite (hs.structural.nearest_mul hst).finite hpartial'.finite
    (hs'.structural.nearest_mul hst).finite (part_sum h hs).finite (part_sum h hs').finite hfirst
    hstructural

/-- A signal that grows does not lower the composite. -/
theorem composite_le (h : w.fault? = none) (hs : s.InRange) (hs' : s'.InRange) (hle : s.Le s') :
    w.composite s ≤ w.composite s' := by
  have hdivides := divides_of_usable h
  have hpart : Part (w.total s) w.sum := part_sum h hs
  have hpart' : Part (w.total s') w.sum := part_sum h hs'
  have hpos := hdivides.rat_pos
  rw [composite_eq hdivides, composite_eq hdivides,
    Similarity.clampUnit_eq (hpart.proportion_div hpos),
    Similarity.clampUnit_eq (hpart'.proportion_div hpos),
    le_iff (hpart.proportion_div hpos).finite (hpart'.proportion_div hpos).finite]
  exact hpart.rat_div_le_div hpart' hpos (rat_total_le h hs hs' hle)

/-- The sum would be the negative zero only if all weights were. -/
theorem total_uniform_zero (h : w.fault? = none) : w.total (.uniform 0.0) = 0.0 := by
  obtain ⟨ht, ht'⟩ := zero_mul_spec (finite_token h).1 (finite_token h).2
  obtain ⟨he, he'⟩ := zero_mul_spec (finite_edit h).1 (finite_edit h).2
  obtain ⟨hs, hs'⟩ := zero_mul_spec (finite_structural h).1 (finite_structural h).2
  obtain ⟨hfirst, hfirst'⟩ := add_zeros ht he
  obtain ⟨htotal, htotal'⟩ := add_zeros hfirst hs
  refine htotal.resolve_right fun hneg => ?_
  have hpos := sum_pos h
  rw [sum, ht' (hfirst' (htotal' hneg).1).1, he' (hfirst' (htotal' hneg).1).2,
    hs' (htotal' hneg).2] at hpos
  exact absurd hpos (lt_irrefl 0)

theorem composite_uniform_zero (h : w.fault? = none) : w.composite (.uniform 0.0) = 0.0 := by
  have hdivides := divides_of_usable h
  rw [composite_eq hdivides, total_uniform_zero h, zero_div_eq hdivides.rat_pos]
  decide

end usable

/-- The composite of proportions is a proportion under any weights.  A finite total has finite
weights, and a sum of two finite terms may overflow, but it is a number. -/
theorem proportion_composite_any (w : Weights) (hs : s.InRange) : Proportion (w.composite s) := by
  by_cases h : w.Divides
  · obtain ⟨hpartial, hst⟩ := isFinite_of_isFinite_add (x := w.token + w.edit) h.finite
    obtain ⟨ht, he⟩ := isFinite_of_isFinite_add hpartial
    have hfirst := isFinite_add_mul hs.token hs.edit ht he hpartial
    have htotal : (w.total s).isNaN = false :=
      isNaN_add hfirst (hs.structural.nearest_mul hst).finite
    rw [composite_eq h]
    exact Similarity.proportion_clampUnit (isNaN_div htotal h.rat_pos)
  · rw [composite_eq_zero h]
    exact proportion_zero

end Weights

/-- What passes still passes with more similarity. -/
theorem Verdict.pass_of_le {t x y : Float} (ht : Config.thresholdFault? t = none)
    (hx : x.isFinite = true) (h : x ≤ y) (hpass : (ofSimilarity t x).decision = .pass) :
    (ofSimilarity t y).decision = .pass := by
  obtain ⟨h₀, h₁⟩ := Config.bounds_of_thresholdFault? ht
  rw [Engine.decision_ofSimilarity] at hpass ⊢
  exact le_trans_of_isFinite (nearest_passThreshold h₀ h₁).finite hx hpass h

namespace Weights

/-- Usable weights divide the weighted sum, keep the end points and grow with the signals, and no
weights at all lead out of the range from 0 to 1. -/
theorem composite_between (w : Weights) :
    (w.fault? = none → w.Divides ∧
      (∀ s : Signals, w.composite s = Similarity.clampUnit
        ((s.token * w.token + s.edit * w.edit + s.structural * w.structural) / w.sum)) ∧
      w.composite ⟨1.0, 1.0, 1.0⟩ = 1.0 ∧ w.composite ⟨0.0, 0.0, 0.0⟩ = 0.0 ∧
      ∀ s s' : Signals, s.InRange → s'.InRange → s.Le s' →
        w.composite s ≤ w.composite s' ∧
          ∀ threshold, Config.thresholdFault? threshold = none →
            (Verdict.ofSimilarity threshold (w.composite s)).decision = .pass →
            (Verdict.ofSimilarity threshold (w.composite s')).decision = .pass) ∧
    ∀ s : Signals, s.InRange → Proportion (w.composite s) := by
  refine ⟨fun h => ⟨divides_of_usable h, composite_eq (divides_of_usable h),
    composite_uniform_one h, composite_uniform_zero h,
    fun s s' hs hs' hle => ⟨composite_le h hs hs' hle, fun t ht hpass => ?_⟩⟩,
    fun s hs => proportion_composite_any w hs⟩
  exact Verdict.pass_of_le ht (proportion_composite h hs).finite (composite_le h hs hs' hle) hpass

/-- Weights whose sum is rounded, signals that pass a threshold and better ones, and weights that
cancel while the weighted sum overflows. -/
theorem composite_between_uneven :
    let w : Weights := ⟨0.6, 0.3, 0.1⟩
    let s : Signals := ⟨0.5, 0.25, 0.0⟩
    let s' : Signals := ⟨0.5, 0.75, 1.0⟩
    w.sum ≠ 1.0 ∧ w.fault? = none ∧ s.InRange ∧ s'.InRange ∧ s.Le s' ∧
      (Verdict.ofSimilarity 0.7 (w.composite s)).decision = .pass ∧
      w.Divides ∧
      w.composite s = Similarity.clampUnit ((0.5 * 0.6 + 0.25 * 0.3 + 0.0 * 0.1) / w.sum) ∧
      w.composite ⟨1.0, 1.0, 1.0⟩ = 1.0 ∧ w.composite ⟨0.0, 0.0, 0.0⟩ = 0.0 ∧
      w.composite s ≤ w.composite s' ∧
      (Verdict.ofSimilarity 0.7 (w.composite s')).decision = .pass ∧
      Proportion ((⟨1e308, -1e308, 1e308⟩ : Weights).composite ⟨1.0, 0.0, 1.0⟩) := by
  intro w s s'
  have hw : w.fault? = none := by decide +kernel
  have hs : s.InRange :=
    ⟨proportion_of_not_lt (by decide) (by decide) (by decide),
      proportion_of_not_lt (by decide) (by decide) (by decide), proportion_zero⟩
  have hs' : s'.InRange :=
    ⟨proportion_of_not_lt (by decide) (by decide) (by decide),
      proportion_of_not_lt (by decide) (by decide) (by decide), proportion_one⟩
  have hle : s.Le s' := ⟨by decide, by decide, by decide⟩
  have hpass : (Verdict.ofSimilarity 0.7 (w.composite s)).decision = .pass := by decide +kernel
  obtain ⟨hdivides, heq, hone, hzero, hbetter⟩ := (composite_between w).1 hw
  obtain ⟨hcomposite, hdecision⟩ := hbetter s s' hs hs' hle
  exact ⟨by decide +kernel, hw, hs, hs', hle, hpass, hdivides, heq s, hone, hzero, hcomposite,
    hdecision 0.7 (by decide) hpass,
    (composite_between ⟨1e308, -1e308, 1e308⟩).2 _
      ⟨proportion_one, proportion_zero, proportion_one⟩⟩

end Weights

end RenderGate
