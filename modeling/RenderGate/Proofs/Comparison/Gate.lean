import RenderGate.Proofs.Comparison.Emptiness
import RenderGate.Proofs.Double.Sum

/-!
# The verdict of a comparison

Only two scored trees are judged by the threshold.  On all other ways the verdict is fixed, and it
is the one that the threshold would give: every usable threshold lets a similarity of 1 pass and
does not let a similarity of 0 pass, because `1 - t` is not rounded to 0 for any double `t` below 1.
-/

namespace RenderGate

open Double

namespace Config

variable {c : Config}

theorem thresholdFault?_of_usable (h : c.fault? = none) : thresholdFault? c.threshold = none := by
  unfold fault? at h
  split at h
  · exact absurd h (Option.some_ne_none _)
  · assumption

theorem weights_of_usable (h : c.fault? = none) : c.weights.fault? = none := by
  unfold fault? at h
  split at h
  · exact absurd h (Option.some_ne_none _)
  · exact h

theorem bounds_of_thresholdFault? {t : Float} (h : thresholdFault? t = none) :
    0.0 < t ∧ t < 1.0 := by
  unfold thresholdFault? at h
  split at h
  · rename_i hb
    rw [Bool.and_eq_true, decide_eq_true_eq, decide_eq_true_eq] at hb
    exact hb
  · exact absurd h (Option.some_ne_none _)

theorem bounds_of_usable (h : c.fault? = none) : 0.0 < c.threshold ∧ c.threshold < 1.0 :=
  bounds_of_thresholdFault? (thresholdFault?_of_usable h)

end Config

namespace Verdict

variable {t : Float}

theorem nearest_passThreshold (h₀ : 0.0 < t) (h₁ : t < 1.0) :
    Nearest (1 - rat t) (passThreshold t) := by
  have hf := isFinite_of_lt_of_lt h₀ h₁
  have hlow := (lt_iff rfl hf).mp h₀
  have hhigh := (lt_iff hf rfl).mp h₁
  rw [rat_zero] at hlow
  rw [rat_one] at hhigh
  have hsub := nearest_sub (x := 1.0) (y := t) rfl hf (by
    rw [rat_one, abs_of_nonneg (by linarith)]
    linarith [one_le_largest])
  rwa [rat_one] at hsub

/-- Full similarity passes. -/
theorem ofSimilarity_one (h₀ : 0.0 < t) (h₁ : t < 1.0) : ofSimilarity t 1.0 = pass := by
  have hf := isFinite_of_lt_of_lt h₀ h₁
  have hlow := (lt_iff rfl hf).mp h₀
  rw [rat_zero] at hlow
  exact if_pos ((nearest_passThreshold h₀ h₁).le nearest_one (by linarith))

/-- No similarity at all does not pass, however large the threshold is. -/
theorem ofSimilarity_zero (h₀ : 0.0 < t) (h₁ : t < 1.0) : ofSimilarity t 0.0 = fail := by
  have hf := isFinite_of_lt_of_lt h₀ h₁
  have hlow := (lt_iff rfl hf).mp h₀
  have hhigh := (lt_iff hf rfl).mp h₁
  rw [rat_zero] at hlow
  rw [rat_one] at hhigh
  have hpos : 0 < rat (passThreshold t) := by
    refine rat_sub_pos (x := 1.0) rfl hf ?_ ?_
    · rw [rat_one, abs_of_nonneg (by linarith)]
      linarith [one_le_largest]
    · rwa [rat_one]
  refine if_neg fun hle => ?_
  have := (le_iff (nearest_passThreshold h₀ h₁).finite rfl).mp hle
  rw [rat_zero] at this
  linarith

end Verdict

namespace Engine

/-- On every way through a comparison the verdict is the one that the threshold gives. -/
theorem verdict_conclude (engine : Engine) (f : Findings) :
    (conclude engine.config f).verdict =
      .ofSimilarity engine.config.threshold (conclude engine.config f).similarity := by
  obtain ⟨h₀, h₁⟩ := Config.bounds_of_usable engine.usable
  cases f with
  | empty emptiness =>
      cases emptiness with
      | both => exact (Verdict.ofSimilarity_one h₀ h₁).symm
      | only label => exact (Verdict.ofSimilarity_zero h₀ h₁).symm
  | unparsed errors => exact (Verdict.ofSimilarity_zero h₀ h₁).symm
  | trees s t => rfl

/-- The text is not blank and cannot be parsed. -/
def Rejects (engine : Engine) (x : Artifact) : Prop :=
  x.isBlank = false ∧ ∃ e, engine.parse x.content = .error e

theorem disagrees_of_rejects {engine : Engine} {x y : Artifact}
    (h : engine.Rejects x ∨ engine.Rejects y) : Disagrees (engine.compare x y) := by
  by_cases hb : x.isBlank = y.isBlank
  · rcases h with ⟨hx, e, he⟩ | ⟨hy, e, he⟩
    · exact disagrees_of_examine_unparsed (examine_of_error hx (hb ▸ hx) (.inl ⟨e, he⟩))
    · exact disagrees_of_examine_unparsed (examine_of_error (hb.trans hy) hy (.inr ⟨e, he⟩))
  · exact disagrees_of_blank_ne engine hb

theorem decision_ofSimilarity (t similarity : Float) :
    (Verdict.ofSimilarity t similarity).decision = .pass ↔ 1.0 - t ≤ similarity := by
  unfold Verdict.ofSimilarity
  split
  · rename_i h
    exact iff_of_true rfl h
  · rename_i h
    exact iff_of_false Decision.noConfusion h

/-- The verdict, the route and the distance agree with the similarity on every way through a
comparison, and what is blank on one side only or cannot be parsed fails with similarity 0. -/
theorem compare_failsClosed (engine : Engine) (x y : Artifact) :
    ((engine.compare x y).verdict.decision = .pass ↔
      1.0 - engine.config.threshold ≤ (engine.compare x y).similarity) ∧
    ((engine.compare x y).verdict.route = .audit ↔
      (engine.compare x y).verdict.decision = .fail) ∧
    (engine.compare x y).distance = 1.0 - (engine.compare x y).similarity ∧
    (engine.Rejects x ∨ engine.Rejects y ∨ x.isBlank ≠ y.isBlank →
      Disagrees (engine.compare x y)) := by
  have hverdict : (engine.compare x y).verdict =
      .ofSimilarity engine.config.threshold (engine.compare x y).similarity :=
    engine.verdict_conclude (engine.examine x y)
  rw [hverdict]
  refine ⟨decision_ofSimilarity _ _, Verdict.route_ofSimilarity _ _, rfl, ?_⟩
  rintro (hx | hy | hb)
  · exact disagrees_of_rejects (.inl hx)
  · exact disagrees_of_rejects (.inr hy)
  · exact disagrees_of_blank_ne engine hb

/-- Identical texts that cannot be parsed fail under the largest threshold there is. -/
theorem compare_failsClosed_identical :
    let engine : Engine :=
      ⟨⟨0.9999999999999999, .standard⟩, by decide +kernel, fun _ => .error .noTree⟩
    let o := engine.compare ⟨.a, none, "x"⟩ ⟨.b, none, "x"⟩
    o.similarity = 0.0 ∧ o.signals.token = 0.0 ∧ o.signals.edit = 0.0 ∧
      o.signals.structural = 0.0 ∧ ¬ 1.0 - 0.9999999999999999 ≤ o.similarity ∧
      o.distance = 1.0 ∧ o.verdict.decision = .fail ∧ o.verdict.route = .audit := by
  intro engine o
  obtain ⟨hpass, hroute, hdistance, hdisagrees⟩ :=
    compare_failsClosed engine ⟨.a, none, "x"⟩ ⟨.b, none, "x"⟩
  have h : Disagrees o := hdisagrees (.inl ⟨by decide, _, rfl⟩)
  refine ⟨h.similarity, h.token, h.edit, h.structural, fun hle => ?_, ?_, h.decision,
    hroute.mpr h.decision⟩
  · exact absurd ((hpass.mpr hle).symm.trans h.decision) (by decide)
  · rw [hdistance, h.similarity]
    decide

end Engine

end RenderGate
