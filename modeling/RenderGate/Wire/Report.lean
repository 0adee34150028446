import RenderGate.Report
import RenderGate.Time.Timestamp
import RenderGate.Wire.Artifact
import RenderGate.Wire.Comparison

/-!
# Reports on the wire

A report is one flat record.  A duration is a record of seconds and nanoseconds; nanoseconds from a
billion on carry over, and a member beyond the two is refused there.
-/

namespace RenderGate

namespace Duration

def toJson (d : Duration) : Json :=
  .ofMembers [("secs", .ofNat d.seconds), ("nanos", .ofNat d.nanos)]

/-- The duration of a number of seconds and nanoseconds; the seconds must fit 64 bits after the
carry and the nanoseconds 32 bits before it. -/
def carried? (seconds nanos : Nat) : Option Duration :=
  let total := seconds + nanos / 1000000000
  if nanos < Nat.pow 2 32 ∧ total < Nat.pow 2 64 then some ⟨total, nanos % 1000000000⟩ else none

def ofJson? (j : Json) : Option Duration := do
  let ms ← j.record? ["secs", "nanos"]
  if ms.all fun e => e.1 == "secs" || e.1 == "nanos" then
    carried? (← Json.required ms "secs" Json.nat?) (← Json.required ms "nanos" Json.nat?)
  else none

end Duration

namespace Instant

def toJson (i : Instant) : Json := .string i.text

def ofJson? (j : Json) : Option Instant := j.text?.bind ofText?

end Instant

namespace Outcome

def members (o : Outcome) : List (String × Json) :=
  [("artifact_a_ref", o.first.toJson), ("artifact_b_ref", o.second.toJson),
    ("ast_similarity", .ofFloat o.similarity), ("token_similarity", .ofFloat o.signals.token),
    ("edit_similarity", .ofFloat o.signals.edit),
    ("structural_similarity", .ofFloat o.signals.structural),
    ("semantic_distance", .ofFloat o.distance), ("quorum_decision", o.verdict.decision.toJson),
    ("route_to", o.verdict.route.toJson), ("diagnostics", .ofTable o.diagnostics)]

def ofMembers? (ms : List (String × Json)) : Option Outcome := do
  return {
    first := ← Json.required ms "artifact_a_ref" ArtifactRef.ofJson?
    second := ← Json.required ms "artifact_b_ref" ArtifactRef.ofJson?
    similarity := ← Json.required ms "ast_similarity" Json.float?
    signals := ← Signals.ofMembers? ms
    distance := ← Json.required ms "semantic_distance" Json.float?
    verdict :=
      { decision := ← Json.required ms "quorum_decision" Decision.ofJson?
        route := ← Json.required ms "route_to" Route.ofJson? }
    diagnostics := ← Json.required ms "diagnostics" (Json.tableOf? some) }

end Outcome

namespace Report

def fields : List String :=
  ["artifact_a_ref", "artifact_b_ref", "ast_similarity", "token_similarity", "edit_similarity",
    "structural_similarity", "semantic_distance", "quorum_decision", "route_to", "diagnostics",
    "duration", "timestamp"]

def toJson (r : Report) : Json :=
  .ofMembers (r.outcome.members ++
    [("duration", r.duration.toJson), ("timestamp", r.timestamp.toJson)])

def ofJson? (j : Json) : Option Report := do
  let ms ← j.record? fields
  return {
    outcome := ← Outcome.ofMembers? ms
    duration := ← Json.required ms "duration" Duration.ofJson?
    timestamp := ← Json.required ms "timestamp" Instant.ofJson? }

end Report

end RenderGate
