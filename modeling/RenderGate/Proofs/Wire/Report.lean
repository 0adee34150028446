import RenderGate.Proofs.Time.Timestamp
import RenderGate.Proofs.Wire.Comparison
import RenderGate.Proofs.Wire.Tree
import RenderGate.Wire.Report

/-!
# Reports travel

A report is read back from what is written of it, with all its diagnostics, its duration and its
timestamp.  With it all types that travel do so faithfully, and in a normal form (`wire_travels`).
-/

namespace RenderGate

open Json

namespace Duration

/-- The seconds fit 64 bits, and the nanoseconds are less than a second. -/
structure Valid (d : Duration) : Prop where
  seconds : d.seconds < 2 ^ 64
  nanos : d.nanos < 1000000000

theorem carried?_eq {d : Duration} (h : d.Valid) : carried? d.seconds d.nanos = some d := by
  have hseconds := h.seconds
  have hnanos := h.nanos
  have hpow : Nat.pow 2 32 = 4294967296 := by decide
  have hpow' : Nat.pow 2 64 = 2 ^ 64 := rfl
  have hdiv : d.nanos / 1000000000 = 0 := Nat.div_eq_of_lt hnanos
  simp only [carried?, hdiv, Nat.add_zero, Nat.mod_eq_of_lt hnanos]
  rw [if_pos ⟨by omega, by omega⟩]

theorem valid_of_carried? {seconds nanos : Nat} {d : Duration}
    (h : carried? seconds nanos = some d) : d.Valid := by
  simp only [carried?, Option.ite_none_right_eq_some, Option.some.injEq] at h
  obtain ⟨⟨-, hseconds⟩, rfl⟩ := h
  exact ⟨hseconds, Nat.mod_lt _ (by norm_num)⟩

theorem roundTrips : RoundTrips Valid toJson ofJson? where
  read_write d hd := by
    have hnames : (Table.ofList [("secs", Json.ofNat d.seconds),
        ("nanos", .ofNat d.nanos)]).entries.all
          (fun e => e.1 == "secs" || e.1 == "nanos") = true := by
      refine List.all_eq_true.mpr fun e he => ?_
      rcases List.mem_cons.mp (Table.mem_of_mem_entries_ofList he) with rfl | he
      · rfl
      · rcases List.mem_singleton.mp he with rfl
        rfl
    simp [toJson, ofJson?, hnames, List.lookup_cons, carried?_eq hd]
  sound j d hj h := by
    simp only [ofJson?, Option.bind_eq_bind, Option.bind_eq_some_iff,
      Option.ite_none_right_eq_some] at h
    obtain ⟨ms, -, -, seconds, -, nanos, -, hd⟩ := h
    exact valid_of_carried? hd

theorem writesFields : WritesFields toJson ["secs", "nanos"] :=
  writesFields_ofMembers (fun _ => rfl) (by decide)

end Duration

theorem Instant.roundTrips : RoundTrips Instant.Valid Instant.toJson Instant.ofJson? where
  read_write i hi := by
    rw [Instant.toJson, Instant.ofJson?, text?_string, Option.bind_some]
    exact Instant.ofText?_text hi
  sound j i _ h := by
    obtain ⟨text, -, hi⟩ := Option.bind_eq_some_iff.mp h
    exact Instant.valid_of_ofText? hi

namespace Outcome

/-- The similarities and the distance are finite; the diagnostics are arbitrary. -/
structure Finite (o : Outcome) : Prop where
  similarity : o.similarity.isFinite = true
  signals : o.signals.Finite
  distance : o.distance.isFinite = true

theorem tableOf?_ofTable (t : Table Json) : tableOf? some (ofTable t) = some t := by
  have hread : t.entries.mapM (fun e => (some e.2).map fun x => (e.1, x)) = some t.entries := by
    have h : (t.entries.map id).mapM (fun e => (some e.2).map fun x => (e.1, x)) =
        some t.entries := mapM_map_eq_some fun _ _ => rfl
    rwa [List.map_id] at h
  show Option.bind (List.mapM _ _) _ = _
  rw [hread]
  exact congrArg some t.ofList_entries

end Outcome

namespace Report

/-- The doubles of a report are finite, and it has a valid duration and timestamp. -/
structure Sound (r : Report) : Prop where
  outcome : r.outcome.Finite
  duration : r.duration.Valid
  timestamp : r.timestamp.Valid

theorem roundTrips : RoundTrips Sound toJson ofJson? where
  read_write r hr := by
    obtain ⟨⟨hsimilarity, ⟨htoken, hedit, hstructural⟩, hdistance⟩, hduration, htimestamp⟩ := hr
    simp [toJson, ofJson?, Outcome.members, Outcome.ofMembers?, Signals.ofMembers?,
      List.lookup_cons, ArtifactRef.roundTrips.read_write, Decision.roundTrips.read_write,
      Route.roundTrips.read_write, hsimilarity, htoken, hedit, hstructural, hdistance,
      Outcome.tableOf?_ofTable, Duration.roundTrips.read_write _ hduration,
      Instant.roundTrips.read_write _ htimestamp]
  sound j r hj h := by
    simp only [ofJson?, Outcome.ofMembers?, Option.bind_eq_bind, Option.bind_eq_some_iff,
      Option.pure_def, Option.some.injEq] at h
    obtain ⟨ms, hms, o, ⟨first, -, second, -, similarity, hsimilarity, signals, hsignals, distance,
      hdistance, decision, -, route, -, diagnostics, -, rfl⟩, duration, hduration, timestamp,
      htimestamp, rfl⟩ := h
    have hmembers := held_of_record? hj hms
    exact ⟨⟨roundTrips_float.sound_required hmembers hsimilarity,
      Signals.finite_of_ofMembers? hmembers hsignals,
      roundTrips_float.sound_required hmembers hdistance⟩,
      Duration.roundTrips.sound_required hmembers hduration,
      Instant.roundTrips.sound_required hmembers htimestamp⟩

theorem writesFields : WritesFields toJson fields :=
  writesFields_ofMembers (fun _ => rfl) (by decide)

end Report

/-- Every type that travels does so faithfully: what is written of a value whose doubles are finite
is read back as this value, and what is written of what was read is in normal form.  Records are
written with exactly their fields, whatever else an object held that was read.  Where it lacked an
optional field null is written for it, and the usual value where a configuration or weights lacked
one. -/
theorem wire_travels :
    (Travels (fun _ => True) ExprContext.toJson ExprContext.ofJson? ∧
      Travels (fun _ => True) Operator.toJson Operator.ofJson? ∧
      Travels (fun _ => True) Kind.toJson Kind.ofJson? ∧
      Travels (fun _ => True) Node.toJson Node.ofJson? ∧
      Travels (fun _ => True) Label.toJson Label.ofJson? ∧
      Travels (fun _ => True) Artifact.toJson Artifact.ofJson? ∧
      Travels (fun _ => True) ArtifactRef.toJson ArtifactRef.ofJson? ∧
      Travels (fun _ => True) Decision.toJson Decision.ofJson? ∧
      Travels (fun _ => True) Route.toJson Route.ofJson? ∧
      Travels (fun _ => True) Verdict.toJson Verdict.ofJson? ∧
      Travels (fun _ => True) Tokens.toJson Tokens.ofJson? ∧
      Travels Signals.Finite Signals.toJson Signals.ofJson? ∧
      Travels Weights.Finite Weights.toJson Weights.ofJson? ∧
      Travels Config.Finite Config.toJson Config.ofJson? ∧
      Travels Fingerprint.Finite Fingerprint.toJson Fingerprint.ofJson? ∧
      Travels StructuralComparison.Finite StructuralComparison.toJson
        StructuralComparison.ofJson? ∧
      Travels Duration.Valid Duration.toJson Duration.ofJson? ∧
      Travels Instant.Valid Instant.toJson Instant.ofJson? ∧
      Travels Report.Sound Report.toJson Report.ofJson?) ∧
    (WritesFields Node.toJson ["kind", "children"] ∧
      WritesFields Artifact.toJson ["label", "path", "content"] ∧
      WritesFields ArtifactRef.toJson ["label", "path", "digest"] ∧
      WritesFields Verdict.toJson ["decision", "route"] ∧
      WritesFields Signals.toJson
        ["token_similarity", "edit_similarity", "structural_similarity"] ∧
      WritesFields Weights.toJson ["token", "edit", "structural"] ∧
      WritesFields Config.toJson ["diff_threshold", "weights"] ∧
      WritesFields Fingerprint.toJson Fingerprint.fields ∧
      WritesFields StructuralComparison.toJson ["breakdown", "score"] ∧
      WritesFields Duration.toJson ["secs", "nanos"] ∧
      WritesFields Report.toJson Report.fields) ∧
    (FillsIn Artifact.toJson Artifact.ofJson? "path" .null ∧
      FillsIn ArtifactRef.toJson ArtifactRef.ofJson? "path" .null ∧
      FillsIn StructuralComparison.toJson StructuralComparison.ofJson? "score" .null ∧
      (∀ members k, Kind.ofJson? (.object [("Keyword", .object members)]) = some k →
        members.lookup "arg" = none →
          k.toJson = .object [("Keyword", .object [("arg", .null)])]) ∧
      (∀ members k, Kind.ofJson? (.object [("ExceptHandler", .object members)]) = some k →
        members.lookup "name" = none →
          k.toJson = .object [("ExceptHandler", .object [("name", .null)])])) ∧
    (FillsIn Config.toJson Config.ofJson? "diff_threshold" (.ofFloat Config.standardThreshold) ∧
      FillsIn Config.toJson Config.ofJson? "weights" Weights.standard.toJson ∧
      FillsIn Weights.toJson Weights.ofJson? "token" (.ofFloat Weights.standard.token) ∧
      FillsIn Weights.toJson Weights.ofJson? "edit" (.ofFloat Weights.standard.edit) ∧
      FillsIn Weights.toJson Weights.ofJson? "structural" (.ofFloat Weights.standard.structural)) :=
  ⟨⟨ExprContext.roundTrips.travels, Operator.roundTrips.travels, Kind.roundTrips.travels,
      Node.roundTrips.travels, Label.roundTrips.travels, Artifact.roundTrips.travels,
      ArtifactRef.roundTrips.travels, Decision.roundTrips.travels, Route.roundTrips.travels,
      Verdict.roundTrips.travels, Tokens.roundTrips.travels, Signals.roundTrips.travels,
      Weights.roundTrips.travels, Config.roundTrips.travels, Fingerprint.roundTrips.travels,
      StructuralComparison.roundTrips.travels, Duration.roundTrips.travels,
      Instant.roundTrips.travels, Report.roundTrips.travels⟩,
    ⟨Node.writesFields, Artifact.writesFields, ArtifactRef.writesFields, Verdict.writesFields,
      Signals.writesFields, Weights.writesFields, Config.writesFields, Fingerprint.writesFields,
      StructuralComparison.writesFields, Duration.writesFields, Report.writesFields⟩,
    ⟨Artifact.fillsIn_path, ArtifactRef.fillsIn_path, StructuralComparison.fillsIn_score,
      fun _ _ => Kind.toJson_of_keyword, fun _ _ => Kind.toJson_of_exceptHandler⟩,
    ⟨Config.fillsIn.1, Config.fillsIn.2, Weights.fillsIn.1, Weights.fillsIn.2.1,
      Weights.fillsIn.2.2⟩⟩

theorem wire_travels_names :
    let r : ArtifactRef := ⟨.a, none, "d"⟩
    let report : Report :=
      ⟨⟨r, r, 1.0, .uniform 1.0, 0.0, .pass, .ofList [("error", .string "e")]⟩, ⟨1, 5⟩,
        ⟨⟨2024, 2, 29⟩, 1439, 59, 1500000000⟩⟩
    let tree : Node := .of .module [.of .expr [.leaf (.name "x")]]
    Report.ofJson? report.toJson = some report ∧ Node.ofJson? tree.toJson = some tree := by
  intro r report tree
  obtain ⟨⟨-, -, -, hnode, -, -, -, -, -, -, -, -, -, -, -, -, -, -, hreport⟩, -⟩ := wire_travels
  refine ⟨hreport.read_write report ⟨⟨?_, ⟨?_, ?_, ?_⟩, ?_⟩, ⟨?_, ?_⟩, ⟨?_, ?_, ?_, ?_⟩⟩,
    hnode.read_write tree trivial⟩
  all_goals decide +kernel

end RenderGate
