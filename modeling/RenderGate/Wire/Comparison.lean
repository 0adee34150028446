import RenderGate.Config
import RenderGate.Verdict
import RenderGate.Wire.Record

/-!
# Fingerprints, signals and configurations on the wire

The records that a comparison reads and writes.  Where a configuration leaves something out it keeps
its usual value; all other records must be complete, except that an optional field may be missing.
-/

namespace RenderGate

namespace Fingerprint

def fields : List String :=
  ["node_count", "max_depth", "function_count", "class_count", "import_count", "complexity_score",
    "node_type_histogram"]

def toJson (f : Fingerprint) : Json :=
  .ofMembers [("node_count", .ofNat f.nodeCount), ("max_depth", .ofNat f.maxDepth),
    ("function_count", .ofNat f.functionCount), ("class_count", .ofNat f.classCount),
    ("import_count", .ofNat f.importCount), ("complexity_score", .ofFloat f.complexityScore),
    ("node_type_histogram", .ofTableWith .ofNat f.histogram)]

def ofJson? (j : Json) : Option Fingerprint := do
  let ms ← j.record? fields
  return {
    nodeCount := ← Json.required ms "node_count" Json.nat?
    maxDepth := ← Json.required ms "max_depth" Json.nat?
    functionCount := ← Json.required ms "function_count" Json.nat?
    classCount := ← Json.required ms "class_count" Json.nat?
    importCount := ← Json.required ms "import_count" Json.nat?
    complexityScore := ← Json.required ms "complexity_score" Json.float?
    histogram := ← Json.required ms "node_type_histogram" (Json.tableOf? Json.nat?) }

end Fingerprint

namespace StructuralComparison

def scoreToJson : Option Float → Json
  | some x => .ofFloat x
  | none => .null

def toJson (c : StructuralComparison) : Json :=
  .ofMembers [("breakdown", .ofTableWith .ofFloat c.breakdown), ("score", scoreToJson c.score)]

def ofJson? (j : Json) : Option StructuralComparison := do
  let ms ← j.record? ["breakdown", "score"]
  return {
    breakdown := ← Json.required ms "breakdown" (Json.tableOf? Json.float?)
    score := ← Json.optional Json.float? (ms.lookup "score") }

end StructuralComparison

namespace Signals

def toJson (s : Signals) : Json :=
  .ofMembers [("token_similarity", .ofFloat s.token), ("edit_similarity", .ofFloat s.edit),
    ("structural_similarity", .ofFloat s.structural)]

def ofMembers? (ms : List (String × Json)) : Option Signals := do
  return {
    token := ← Json.required ms "token_similarity" Json.float?
    edit := ← Json.required ms "edit_similarity" Json.float?
    structural := ← Json.required ms "structural_similarity" Json.float? }

def ofJson? (j : Json) : Option Signals :=
  (j.record? ["token_similarity", "edit_similarity", "structural_similarity"]).bind ofMembers?

end Signals

namespace Weights

def toJson (w : Weights) : Json :=
  .ofMembers [("token", .ofFloat w.token), ("edit", .ofFloat w.edit),
    ("structural", .ofFloat w.structural)]

/-- The value of a field that may be missing but not null. -/
def field? {α : Type} (ms : List (String × Json)) (name : String) (read : Json → Option α)
    (usual : α) : Option α :=
  match ms.lookup name with
  | some j => read j
  | none => some usual

def ofJson? (j : Json) : Option Weights := do
  let ms ← j.leadingRecord? ["token", "edit", "structural"]
  return {
    token := ← field? ms "token" Json.float? standard.token
    edit := ← field? ms "edit" Json.float? standard.edit
    structural := ← field? ms "structural" Json.float? standard.structural }

end Weights

namespace Config

def toJson (c : Config) : Json :=
  .ofMembers [("diff_threshold", .ofFloat c.threshold), ("weights", c.weights.toJson)]

/-- The configuration of a wire form, which need not be usable. -/
def ofJson? (j : Json) : Option Config := do
  let ms ← j.leadingRecord? ["diff_threshold", "weights"]
  return {
    threshold := ← Weights.field? ms "diff_threshold" Json.float? standardThreshold
    weights := ← Weights.field? ms "weights" Weights.ofJson? Weights.standard }

end Config

namespace Decision

def ofName? (name : String) : Option Decision := [pass, fail].find? (·.name == name)

theorem ofName?_name (d : Decision) : ofName? d.name = some d := by
  cases d <;> rfl

def toJson (d : Decision) : Json := .string d.name

def ofJson? (j : Json) : Option Decision := j.variant?.bind ofName?

end Decision

namespace Route

def ofName? (name : String) : Option Route := [nowhere, audit].find? (·.name == name)

theorem ofName?_name (r : Route) : ofName? r.name = some r := by
  cases r <;> rfl

def toJson (r : Route) : Json := .string r.name

def ofJson? (j : Json) : Option Route := j.variant?.bind ofName?

end Route

namespace Verdict

def toJson (v : Verdict) : Json :=
  .ofMembers [("decision", v.decision.toJson), ("route", v.route.toJson)]

def ofJson? (j : Json) : Option Verdict := do
  let ms ← j.record? ["decision", "route"]
  return {
    decision := ← Json.required ms "decision" Decision.ofJson?
    route := ← Json.required ms "route" Route.ofJson? }

end Verdict

namespace Tokens

def toJson (tokens : List String) : Json := .array (tokens.map .string)

def ofJson? (j : Json) : Option (List String) := j.listOf? Json.text?

end Tokens

end RenderGate
