import RenderGate.Config
import RenderGate.Toml.Document

/-!
# Configurations as documents

A TOML document gives the threshold and the weights.  What it leaves out keeps its usual value, and
what it says beyond that is ignored.  The weights may be an array in the order of the signals.
-/

namespace RenderGate

open Toml (Entries)

def Toml.float? : Toml → Option Float
  | .float x => some x
  | .integer n => some (Float.ofInt n)
  | _ => none

namespace Toml.Entries

def float? (es : Entries) (key : String) (usual : Float) : Option Float :=
  match es.lookup key with
  | some v => v.float?
  | none => some usual

end Toml.Entries

namespace Weights

def ofEntries? (es : Entries) : Option Weights := do
  let token ← es.float? "token" standard.token
  let edit ← es.float? "edit" standard.edit
  let structural ← es.float? "structural" standard.structural
  return ⟨token, edit, structural⟩

/-- The weights in a list, which may be too short or too long. -/
def ofItems? (items : List Toml) : Option Weights :=
  ofEntries? (["token", "edit", "structural"].zip items)

/-- The weights that a value gives.  A date is a table of which no key counts. -/
def ofToml? : Toml → Option Weights
  | .table _ es => ofEntries? es
  | .array items => ofItems? items
  | .dateTime => some standard
  | _ => none

end Weights

namespace Config

def ofEntries? (es : Entries) : Option Config := do
  let threshold ← es.float? "diff_threshold" standardThreshold
  let weights ← match es.lookup "weights" with
    | some v => Weights.ofToml? v
    | none => some Weights.standard
  return ⟨threshold, weights⟩

def ofDocument (document : String) : Except ConfigError Config :=
  match (Toml.read? document).bind ofEntries? with
  | some c => c.validated
  | none => .error .malformedDocument

end Config

end RenderGate
