import RenderGate.Json.Basic

/-!
# Records and variants on the wire

A record is an object or an array with one item per field, in the order of the fields; members of an
object that belong to no field are ignored.  A variant without a payload is its name, or an object
whose only member has that name and the value null.
-/

namespace RenderGate.Json

def record? (fields : List String) : Json → Option (List (String × Json))
  | .object ms => some ms
  | .array xs => if xs.length = fields.length then some (fields.zip xs) else none
  | _ => none

/-- The members of a record whose last fields may be missing. -/
def leadingRecord? (fields : List String) : Json → Option (List (String × Json))
  | .object ms => some ms
  | .array xs => if xs.length ≤ fields.length then some (fields.zip xs) else none
  | _ => none

/-- The name of a variant without a payload. -/
def variant? : Json → Option String
  | .string name => some name
  | .object [(name, .null)] => some name
  | _ => none

def listOf? {α : Type} (read : Json → Option α) (j : Json) : Option (List α) :=
  j.items?.bind fun xs => xs.mapM read

def tableOf? {α : Type} (read : Json → Option α) (j : Json) : Option (Table α) := do
  let members ← j.members?
  return .ofList (← members.mapM fun e => (read e.2).map fun x => (e.1, x))

def ofTableWith {α : Type} (write : α → Json) (t : Table α) : Json :=
  .object (t.entries.map fun e => (e.1, write e.2))

def required {α : Type} (members : List (String × Json)) (name : String)
    (read : Json → Option α) : Option α :=
  (members.lookup name).bind read

end RenderGate.Json
