import RenderGate.Artifact
import RenderGate.Wire.Record

/-!
# Artifacts on the wire

An artifact travels with its text, and a reference with the digest of the text instead.
-/

namespace RenderGate

namespace Label

def ofName? (name : String) : Option Label := [a, b].find? (·.name == name)

theorem ofName?_name (l : Label) : ofName? l.name = some l := by
  cases l <;> rfl

def toJson (l : Label) : Json := .string l.name

def ofJson? (j : Json) : Option Label := j.variant?.bind ofName?

end Label

namespace Artifact

def toJson (x : Artifact) : Json :=
  .ofMembers [("label", x.label.toJson), ("path", .ofText? x.path), ("content", .string x.content)]

def ofJson? (j : Json) : Option Artifact := do
  let ms ← j.record? ["label", "path", "content"]
  return {
    label := ← Json.required ms "label" Label.ofJson?
    path := ← Json.optional Json.text? (ms.lookup "path")
    content := ← Json.required ms "content" Json.text? }

end Artifact

namespace ArtifactRef

def toJson (r : ArtifactRef) : Json :=
  .ofMembers [("label", r.label.toJson), ("path", .ofText? r.path), ("digest", .string r.digest)]

def ofJson? (j : Json) : Option ArtifactRef := do
  let ms ← j.record? ["label", "path", "digest"]
  return {
    label := ← Json.required ms "label" Label.ofJson?
    path := ← Json.optional Json.text? (ms.lookup "path")
    digest := ← Json.required ms "digest" Json.text? }

end ArtifactRef

end RenderGate
