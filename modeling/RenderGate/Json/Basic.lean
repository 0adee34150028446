import RenderGate.Table

/-!
# JSON values

The values in which configurations, trees and reports travel.  A number is either a whole number,
which keeps all its digits, or a double; the two are never equal.  The members of an object are
listed in increasing order of their names, so equal objects have equal lists of members.
-/

namespace RenderGate

inductive Json.Number where
  | int (n : Int)
  | float (x : Float)

inductive Json where
  | null
  | bool (b : Bool)
  | number (n : Json.Number)
  | string (s : String)
  | array (items : List Json)
  | object (members : List (String × Json))

namespace Json

instance : Inhabited Json := ⟨.null⟩

/-- Whole numbers agree exactly, doubles as numbers: zero equals negative zero. -/
def Number.same : Number → Number → Bool
  | .int m, .int n => m == n
  | .float x, .float y => x == y
  | _, _ => false

mutual

def same : Json → Json → Bool
  | .null, .null => true
  | .bool a, .bool b => a == b
  | .number m, .number n => m.same n
  | .string s, .string t => s == t
  | .array xs, .array ys => sameItems xs ys
  | .object xs, .object ys => sameMembers xs ys
  | _, _ => false

def sameItems : List Json → List Json → Bool
  | [], [] => true
  | x :: xs, y :: ys => x.same y && sameItems xs ys
  | _, _ => false

def sameMembers : List (String × Json) → List (String × Json) → Bool
  | [], [] => true
  | (k, x) :: xs, (l, y) :: ys => k == l && x.same y && sameMembers xs ys
  | _, _ => false

end

/-- The object with the given members; of several with one name the last one counts. -/
def ofMembers (members : List (String × Json)) : Json := .object (Table.ofList members).entries

def ofTable (t : Table Json) : Json := .object t.entries

def ofNat (n : Nat) : Json := .number (.int n)

/-- A double; JSON has no form for NaN and the infinities, which become null. -/
def ofFloat (x : Float) : Json := if x.isFinite then .number (.float x) else .null

def ofText? : Option String → Json
  | some s => .string s
  | none => .null

def text? : Json → Option String
  | .string s => some s
  | _ => none

def bool? : Json → Option Bool
  | .bool b => some b
  | _ => none

def items? : Json → Option (List Json)
  | .array xs => some xs
  | _ => none

def members? : Json → Option (List (String × Json))
  | .object ms => some ms
  | _ => none

/-- The natural number that a value is; a double is none, even if it is whole. -/
def nat? : Json → Option Nat
  | .number (.int (.ofNat n)) => some n
  | _ => none

/-- The double that a number stands for; a whole number is rounded to the nearest. -/
def float? : Json → Option Float
  | .number (.float x) => some x
  | .number (.int n) => some (Float.ofInt n)
  | _ => none

def optional {α : Type} (read : Json → Option α) : Option Json → Option (Option α)
  | none => some none
  | some .null => some none
  | some j => (read j).map some

def get? (j : Json) (name : String) : Option Json :=
  match j with
  | .object ms => ms.lookup name
  | _ => none

end Json

end RenderGate
