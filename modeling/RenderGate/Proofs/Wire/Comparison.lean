import RenderGate.Proofs.Wire.Record
import RenderGate.Wire.Artifact
import RenderGate.Wire.Comparison

/-!
# Artifacts, fingerprints and configurations travel

Each record is read back from what is written of it, as long as its doubles are finite.  It is
written with all of its fields and with no others.  An optional field that is missing comes back as
null, and a field that a configuration leaves out with its usual value.
-/

namespace RenderGate

open Json

theorem Label.roundTrips : RoundTrips (fun _ => True) Label.toJson Label.ofJson? :=
  ⟨fun l _ => l.ofName?_name, fun _ _ _ _ => trivial⟩

namespace Artifact

theorem roundTrips : RoundTrips (fun _ => True) toJson ofJson? where
  read_write x _ := by
    simp [toJson, ofJson?, List.lookup_cons, Label.roundTrips.read_write]
  sound _ _ _ _ := trivial

theorem writesFields : WritesFields toJson ["label", "path", "content"] :=
  writesFields_ofMembers (fun _ => rfl) (by decide)

theorem fillsIn_path : FillsIn toJson ofJson? "path" .null := by
  refine fillsIn_ofMembers path .ofText? none (fun _ => rfl) fun members x h hmissing => ?_
  simp only [ofJson?, Option.bind_eq_bind, Option.bind_eq_some_iff, Option.pure_def,
    Option.some.injEq] at h
  obtain ⟨ms, hms, -, -, path, hpath, -, -, rfl⟩ := h
  obtain rfl := Option.some.inj hms
  exact eq_none_of_optional hpath hmissing

end Artifact

namespace ArtifactRef

theorem roundTrips : RoundTrips (fun _ => True) toJson ofJson? where
  read_write r _ := by
    simp [toJson, ofJson?, List.lookup_cons, Label.roundTrips.read_write]
  sound _ _ _ _ := trivial

theorem writesFields : WritesFields toJson ["label", "path", "digest"] :=
  writesFields_ofMembers (fun _ => rfl) (by decide)

theorem fillsIn_path : FillsIn toJson ofJson? "path" .null := by
  refine fillsIn_ofMembers path .ofText? none (fun _ => rfl) fun members r h hmissing => ?_
  simp only [ofJson?, Option.bind_eq_bind, Option.bind_eq_some_iff, Option.pure_def,
    Option.some.injEq] at h
  obtain ⟨ms, hms, -, -, path, hpath, -, -, rfl⟩ := h
  obtain rfl := Option.some.inj hms
  exact eq_none_of_optional hpath hmissing

end ArtifactRef

namespace Fingerprint

def Finite (f : Fingerprint) : Prop := f.complexityScore.isFinite = true

theorem roundTrips : RoundTrips Finite toJson ofJson? where
  read_write f hf := by
    have hscore := float?_ofFloat hf
    have hhistogram := roundTrips_nat.table.read_write f.histogram fun _ _ => trivial
    simp [toJson, ofJson?, List.lookup_cons, hscore, hhistogram]
  sound j f hj h := by
    simp only [ofJson?, Option.bind_eq_bind, Option.bind_eq_some_iff, Option.pure_def,
      Option.some.injEq] at h
    obtain ⟨ms, hms, -, -, -, -, -, -, -, -, -, -, score, hscore, -, -, rfl⟩ := h
    exact roundTrips_float.sound_required (held_of_record? hj hms) hscore

theorem writesFields : WritesFields toJson fields :=
  writesFields_ofMembers (fun _ => rfl) (by decide)

end Fingerprint

namespace StructuralComparison

/-- The similarity of each metric is finite, and so is the score, if there is one. -/
def Finite (c : StructuralComparison) : Prop :=
  (∀ e ∈ c.breakdown.entries, e.2.isFinite = true) ∧ ∀ x ∈ c.score, x.isFinite = true

theorem optional_scoreToJson {score : Option Float} (h : ∀ x ∈ score, x.isFinite = true) :
    optional float? (some (scoreToJson score)) = some score := by
  cases score with
  | none => rfl
  | some x =>
      have hx : x.isFinite = true := h x rfl
      rw [scoreToJson, ofFloat, if_pos hx]
      rfl

theorem read_of_ofJson? {j : Json} {c : StructuralComparison} (h : ofJson? j = some c) :
    ∃ ms, j.record? ["breakdown", "score"] = some ms ∧
      required ms "breakdown" (tableOf? float?) = some c.breakdown ∧
      optional float? (ms.lookup "score") = some c.score := by
  simp only [ofJson?, Option.bind_eq_bind, Option.bind_eq_some_iff, Option.pure_def,
    Option.some.injEq] at h
  obtain ⟨ms, hms, breakdown, hbreakdown, score, hscore, rfl⟩ := h
  exact ⟨ms, hms, hbreakdown, hscore⟩

theorem roundTrips : RoundTrips Finite toJson ofJson? where
  read_write c hc := by
    have hbreakdown := roundTrips_float.table.read_write c.breakdown hc.1
    have hscore := optional_scoreToJson hc.2
    simp [toJson, ofJson?, List.lookup_cons, hbreakdown, hscore]
  sound j c hj h := by
    obtain ⟨ms, hms, hbreakdown, hscore⟩ := read_of_ofJson? h
    have hmembers := held_of_record? hj hms
    exact ⟨roundTrips_float.table.sound_required hmembers hbreakdown,
      roundTrips_float.sound_optional hmembers hscore⟩

theorem writesFields : WritesFields toJson ["breakdown", "score"] :=
  writesFields_ofMembers (fun _ => rfl) (by decide)

theorem fillsIn_score : FillsIn toJson ofJson? "score" .null := by
  refine fillsIn_ofMembers score scoreToJson none (fun _ => rfl) fun members c h hmissing => ?_
  obtain ⟨ms, hms, -, hscore⟩ := read_of_ofJson? h
  obtain rfl := Option.some.inj hms
  exact eq_none_of_optional hscore hmissing

end StructuralComparison

namespace Signals

structure Finite (s : Signals) : Prop where
  token : s.token.isFinite = true
  edit : s.edit.isFinite = true
  structural : s.structural.isFinite = true

theorem finite_of_ofMembers? {members : List (String × Json)} (hmembers : ∀ e ∈ members, Held e.2)
    {s : Signals} (h : ofMembers? members = some s) : s.Finite := by
  simp only [ofMembers?, Option.bind_eq_bind, Option.bind_eq_some_iff, Option.pure_def,
    Option.some.injEq] at h
  obtain ⟨token, htoken, edit, hedit, structural, hstructural, rfl⟩ := h
  exact ⟨roundTrips_float.sound_required hmembers htoken,
    roundTrips_float.sound_required hmembers hedit,
    roundTrips_float.sound_required hmembers hstructural⟩

theorem roundTrips : RoundTrips Finite toJson ofJson? where
  read_write s hs := by
    simp [toJson, ofJson?, ofMembers?, List.lookup_cons, hs.token, hs.edit, hs.structural]
  sound j s hj h := by
    obtain ⟨ms, hms, hs⟩ := Option.bind_eq_some_iff.mp h
    exact finite_of_ofMembers? (held_of_record? hj hms) hs

theorem writesFields :
    WritesFields toJson ["token_similarity", "edit_similarity", "structural_similarity"] :=
  writesFields_ofMembers (fun _ => rfl) (by decide)

end Signals

section fields

variable {α : Type} {Sound : α → Prop} {write : α → Json} {read : Json → Option α}
variable {members : List (String × Json)} {name : String} {usual x : α}

theorem Json.RoundTrips.sound_field? (h : RoundTrips Sound write read)
    (hmembers : ∀ e ∈ members, Held e.2) (husual : Sound usual)
    (hx : Weights.field? members name read usual = some x) : Sound x := by
  unfold Weights.field? at hx
  split at hx
  · rename_i j hj
    exact h.sound j x (hmembers _ (mem_of_lookup hj)) hx
  · exact Option.some.inj hx ▸ husual

theorem Weights.eq_usual_of_field? (hmissing : members.lookup name = none)
    (hx : field? members name read usual = some x) : x = usual := by
  rw [field?, hmissing] at hx
  exact (Option.some.inj hx).symm

end fields

namespace Weights

structure Finite (w : Weights) : Prop where
  token : w.token.isFinite = true
  edit : w.edit.isFinite = true
  structural : w.structural.isFinite = true

theorem finite_standard : standard.Finite :=
  ⟨by decide +kernel, by decide +kernel, by decide +kernel⟩

theorem read_of_ofJson? {j : Json} {w : Weights} (h : ofJson? j = some w) :
    ∃ ms, j.leadingRecord? ["token", "edit", "structural"] = some ms ∧
      field? ms "token" float? standard.token = some w.token ∧
      field? ms "edit" float? standard.edit = some w.edit ∧
      field? ms "structural" float? standard.structural = some w.structural := by
  simp only [ofJson?, Option.bind_eq_bind, Option.bind_eq_some_iff, Option.pure_def,
    Option.some.injEq] at h
  obtain ⟨ms, hms, token, htoken, edit, hedit, structural, hstructural, rfl⟩ := h
  exact ⟨ms, hms, htoken, hedit, hstructural⟩

theorem roundTrips : RoundTrips Finite toJson ofJson? where
  read_write w hw := by
    simp [toJson, ofJson?, field?, List.lookup_cons, hw.token, hw.edit, hw.structural]
  sound j w hj h := by
    obtain ⟨ms, hms, htoken, hedit, hstructural⟩ := read_of_ofJson? h
    have hmembers := held_of_leadingRecord? hj hms
    exact ⟨roundTrips_float.sound_field? hmembers finite_standard.token htoken,
      roundTrips_float.sound_field? hmembers finite_standard.edit hedit,
      roundTrips_float.sound_field? hmembers finite_standard.structural hstructural⟩

theorem writesFields : WritesFields toJson ["token", "edit", "structural"] :=
  writesFields_ofMembers (fun _ => rfl) (by decide)

theorem fillsIn : FillsIn toJson ofJson? "token" (.ofFloat standard.token) ∧
    FillsIn toJson ofJson? "edit" (.ofFloat standard.edit) ∧
    FillsIn toJson ofJson? "structural" (.ofFloat standard.structural) := by
  refine ⟨fillsIn_ofMembers token .ofFloat _ (fun _ => rfl) fun members w h hmissing => ?_,
    fillsIn_ofMembers edit .ofFloat _ (fun _ => rfl) fun members w h hmissing => ?_,
    fillsIn_ofMembers structural .ofFloat _ (fun _ => rfl) fun members w h hmissing => ?_⟩
  all_goals
    obtain ⟨ms, hms, htoken, hedit, hstructural⟩ := read_of_ofJson? h
    obtain rfl := Option.some.inj hms
  · exact eq_usual_of_field? hmissing htoken
  · exact eq_usual_of_field? hmissing hedit
  · exact eq_usual_of_field? hmissing hstructural

end Weights

namespace Config

structure Finite (c : Config) : Prop where
  threshold : c.threshold.isFinite = true
  weights : c.weights.Finite

theorem read_of_ofJson? {j : Json} {c : Config} (h : ofJson? j = some c) :
    ∃ ms, j.leadingRecord? ["diff_threshold", "weights"] = some ms ∧
      Weights.field? ms "diff_threshold" float? standardThreshold = some c.threshold ∧
      Weights.field? ms "weights" Weights.ofJson? Weights.standard = some c.weights := by
  simp only [ofJson?, Option.bind_eq_bind, Option.bind_eq_some_iff, Option.pure_def,
    Option.some.injEq] at h
  obtain ⟨ms, hms, threshold, hthreshold, weights, hweights, rfl⟩ := h
  exact ⟨ms, hms, hthreshold, hweights⟩

theorem roundTrips : RoundTrips Finite toJson ofJson? where
  read_write c hc := by
    simp [toJson, ofJson?, Weights.field?, List.lookup_cons, hc.threshold,
      Weights.roundTrips.read_write c.weights hc.weights]
  sound j c hj h := by
    obtain ⟨ms, hms, hthreshold, hweights⟩ := read_of_ofJson? h
    have hmembers := held_of_leadingRecord? hj hms
    exact ⟨roundTrips_float.sound_field? hmembers (by decide +kernel) hthreshold,
      Weights.roundTrips.sound_field? hmembers Weights.finite_standard hweights⟩

theorem writesFields : WritesFields toJson ["diff_threshold", "weights"] :=
  writesFields_ofMembers (fun _ => rfl) (by decide)

theorem fillsIn : FillsIn toJson ofJson? "diff_threshold" (.ofFloat standardThreshold) ∧
    FillsIn toJson ofJson? "weights" Weights.standard.toJson := by
  refine ⟨fillsIn_ofMembers threshold .ofFloat _ (fun _ => rfl) fun members c h hmissing => ?_,
    fillsIn_ofMembers weights Weights.toJson _ (fun _ => rfl) fun members c h hmissing => ?_⟩
  all_goals
    obtain ⟨ms, hms, hthreshold, hweights⟩ := read_of_ofJson? h
    obtain rfl := Option.some.inj hms
  · exact Weights.eq_usual_of_field? hmissing hthreshold
  · exact Weights.eq_usual_of_field? hmissing hweights

end Config

theorem Decision.roundTrips : RoundTrips (fun _ => True) Decision.toJson Decision.ofJson? :=
  ⟨fun d _ => d.ofName?_name, fun _ _ _ _ => trivial⟩

theorem Route.roundTrips : RoundTrips (fun _ => True) Route.toJson Route.ofJson? :=
  ⟨fun r _ => r.ofName?_name, fun _ _ _ _ => trivial⟩

namespace Verdict

theorem roundTrips : RoundTrips (fun _ => True) toJson ofJson? where
  read_write v _ := by
    simp [toJson, ofJson?, List.lookup_cons, Decision.roundTrips.read_write,
      Route.roundTrips.read_write]
  sound _ _ _ _ := trivial

theorem writesFields : WritesFields toJson ["decision", "route"] :=
  writesFields_ofMembers (fun _ => rfl) (by decide)

end Verdict

theorem Tokens.roundTrips : RoundTrips (fun _ => True) Tokens.toJson Tokens.ofJson? :=
  ⟨fun tokens _ => roundTrips_text.list.read_write tokens fun _ _ => trivial,
    fun _ _ _ _ => trivial⟩

end RenderGate
