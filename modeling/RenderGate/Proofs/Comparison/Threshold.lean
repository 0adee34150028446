import RenderGate.Proofs.Comparison.Gate
import RenderGate.Proofs.Table

/-!
# Thresholds

The threshold is used in the last step of a comparison only.  Two engines that agree in everything
but the threshold find and measure the same, and where they come to different verdicts the one with
the smaller threshold does not let the pair pass.  No rounding of `1 - t` turns this around, because
rounding is monotone.
-/

namespace RenderGate

open Double

/-- Of two thresholds the smaller one asks for more similarity. -/
theorem Verdict.passThreshold_antitone {t u : Float} (ht₀ : 0.0 < t) (ht₁ : t < 1.0)
    (hu₀ : 0.0 < u) (hu₁ : u < 1.0) (h : t ≤ u) : passThreshold u ≤ passThreshold t := by
  have hle := (le_iff (isFinite_of_lt_of_lt ht₀ ht₁) (isFinite_of_lt_of_lt hu₀ hu₁)).mp h
  exact (nearest_passThreshold hu₀ hu₁).le (nearest_passThreshold ht₀ ht₁) (by linarith)

/-- Verdicts of which the first passes only if the second one does. -/
def Verdict.Le (v w : Verdict) : Prop := v = w ∨ v = .fail ∧ w = .pass

theorem Verdict.le_ofSimilarity {t u : Float} (ht₀ : 0.0 < t) (ht₁ : t < 1.0) (hu₀ : 0.0 < u)
    (hu₁ : u < 1.0) (h : t ≤ u) (similarity : Float) :
    (ofSimilarity t similarity).Le (ofSimilarity u similarity) := by
  have hanti := passThreshold_antitone ht₀ ht₁ hu₀ hu₁ h
  by_cases hs : passThreshold t ≤ similarity
  · have hs' := le_trans_of_isFinite (nearest_passThreshold hu₀ hu₁).finite
      (nearest_passThreshold ht₀ ht₁).finite hanti hs
    exact .inl ((if_pos hs).trans (if_pos hs').symm)
  · by_cases hs' : passThreshold u ≤ similarity
    · exact .inr ⟨if_neg hs, if_pos hs'⟩
    · exact .inl ((if_neg hs).trans (if_neg hs').symm)

theorem Verdict.Le.isPass {o p : Outcome} (h : o.verdict.Le p.verdict) (hpass : o.isPass = true) :
    p.isPass = true := by
  unfold Outcome.isPass at hpass ⊢
  rcases h with heq | ⟨-, hp⟩
  · rw [← heq]
    exact hpass
  · rw [hp]
    rfl

structure Conclusion.SameButVerdict (c d : Conclusion) : Prop where
  similarity : c.similarity = d.similarity
  signals : c.signals = d.signals
  diagnostics : c.diagnostics = d.diagnostics

namespace Engine

/-- The threshold of a configuration decides on the verdict only. -/
theorem sameButVerdict_conclude {c d : Config} (h : c.weights = d.weights) (found : Findings) :
    (conclude c found).SameButVerdict (conclude d found) := by
  cases found with
  | empty emptiness => exact ⟨rfl, rfl, rfl⟩
  | unparsed errors => exact ⟨rfl, rfl, rfl⟩
  | trees s t =>
      exact ⟨congrArg (·.composite (s.summary.assess t.summary).signals) h, rfl, rfl⟩

structure SameButThreshold (e f : Engine) : Prop where
  parse : e.parse = f.parse
  weights : e.config.weights = f.config.weights

section fields

variable (engine : Engine) (x y : Artifact)

theorem first_compare : (engine.compare x y).first = x.reference := rfl

theorem second_compare : (engine.compare x y).second = y.reference := rfl

theorem similarity_compare : (engine.compare x y).similarity =
    (conclude engine.config (engine.examine x y)).similarity := rfl

theorem signals_compare : (engine.compare x y).signals =
    (conclude engine.config (engine.examine x y)).signals := rfl

theorem distance_compare : (engine.compare x y).distance = 1.0 - (engine.compare x y).similarity :=
  rfl

theorem verdict_compare : (engine.compare x y).verdict =
    .ofSimilarity engine.config.threshold (engine.compare x y).similarity :=
  engine.verdict_conclude (engine.examine x y)

theorem get?_diagnostics_compare (key : String) : (engine.compare x y).diagnostics.get? key =
    (Table.ofList (baseDiagnostics engine.config x.reference y.reference ++
      (conclude engine.config (engine.examine x y)).diagnostics)).get? key := rfl

end fields

variable {e f : Engine}

theorem SameButThreshold.examine (h : SameButThreshold e f) (x y : Artifact) :
    e.examine x y = f.examine x y := by
  unfold Engine.examine
  rw [h.parse]

theorem SameButThreshold.conclude (h : SameButThreshold e f) (x y : Artifact) :
    (Engine.conclude e.config (e.examine x y)).SameButVerdict
      (Engine.conclude f.config (f.examine x y)) := by
  rw [h.examine]
  exact sameButVerdict_conclude h.weights _

def thresholdKeys : List String := ["threshold_used", "pass_threshold"]

theorem get?_diagnostics_congr {c d : Config} (h : c.weights = d.weights) (a b : ArtifactRef)
    (rest : List (String × Json)) {key : String} (hk : key ∉ thresholdKeys) :
    (Table.ofList (baseDiagnostics c a b ++ rest)).get? key =
      (Table.ofList (baseDiagnostics d a b ++ rest)).get? key := by
  have hfirst : ∀ (v w : Json), ∀ p ∈ [("threshold_used", v), ("pass_threshold", w)],
      p.1 ≠ key := by
    rintro v w p hp rfl
    exact hk (List.mem_map_of_mem (f := Prod.fst) hp)
  have hcongr := Table.get?_ofList_append_congr
    ([("weights", c.weights.toJson), ("identical_content", .bool (a.digest == b.digest))] ++ rest)
    (hfirst (.ofFloat c.threshold) (.ofFloat c.passThreshold))
    (hfirst (.ofFloat d.threshold) (.ofFloat d.passThreshold))
  rw [baseDiagnostics, baseDiagnostics, ← h]
  exact hcongr

/-- Of two engines that differ in the threshold only, the one with the smaller threshold measures
the same and reports the same but for the threshold, and passes nothing that the other one fails. -/
theorem compare_le_of_threshold_le (hsame : SameButThreshold e f)
    (hle : e.config.threshold ≤ f.config.threshold) (x y : Artifact) :
    (e.compare x y).first = (f.compare x y).first ∧
    (e.compare x y).second = (f.compare x y).second ∧
    (e.compare x y).similarity = (f.compare x y).similarity ∧
    (e.compare x y).signals = (f.compare x y).signals ∧
    (e.compare x y).distance = (f.compare x y).distance ∧
    (∀ key ∉ thresholdKeys,
      (e.compare x y).diagnostics.get? key = (f.compare x y).diagnostics.get? key) ∧
    ((e.compare x y).isPass = true → (f.compare x y).isPass = true) ∧
    (e.compare x y).verdict.Le (f.compare x y).verdict := by
  obtain ⟨he₀, he₁⟩ := Config.bounds_of_usable e.usable
  obtain ⟨hf₀, hf₁⟩ := Config.bounds_of_usable f.usable
  have hsame' := hsame.conclude x y
  have hsimilarity : (e.compare x y).similarity = (f.compare x y).similarity := by
    rw [similarity_compare, similarity_compare, hsame'.similarity]
  have hverdict : (e.compare x y).verdict.Le (f.compare x y).verdict := by
    rw [verdict_compare, verdict_compare, hsimilarity]
    exact Verdict.le_ofSimilarity he₀ he₁ hf₀ hf₁ hle _
  refine ⟨?_, ?_, hsimilarity, ?_, ?_, fun key hk => ?_, hverdict.isPass, hverdict⟩
  · rw [first_compare, first_compare]
  · rw [second_compare, second_compare]
  · rw [signals_compare, signals_compare, hsame'.signals]
  · rw [distance_compare, distance_compare, hsimilarity]
  · rw [get?_diagnostics_compare, get?_diagnostics_compare, hsame'.diagnostics]
    exact get?_diagnostics_congr hsame.weights _ _ _ hk

theorem compare_le_of_threshold_le_renamed :
    let parse : String → Except ParseError Node := fun text =>
      .ok (.of .module [.of .expr [.leaf (.name text)]])
    let e : Engine := ⟨⟨0.03, .standard⟩, by decide +kernel, parse⟩
    let f : Engine := ⟨⟨0.5, .standard⟩, by decide +kernel, parse⟩
    (e.compare ⟨.a, none, "x"⟩ ⟨.b, none, "y"⟩).verdict.Le
      (f.compare ⟨.a, none, "x"⟩ ⟨.b, none, "y"⟩).verdict := by
  intro parse e f
  have hall := compare_le_of_threshold_le (e := e) (f := f) ⟨rfl, rfl⟩ (by decide +kernel)
    ⟨.a, none, "x"⟩ ⟨.b, none, "y"⟩
  exact hall.2.2.2.2.2.2.2

end Engine

end RenderGate
