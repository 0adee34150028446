import RenderGate.Json.Basic

/-!
# Writing JSON text

Values are written without blanks.  A double is written as a string of the sixteen hexadecimal
digits of its bits, so that no digit of it is lost, and every NaN as `NaN`.
-/

namespace RenderGate.Json

def hexDigit (n : Nat) : Char := if n < 10 then Char.ofNat (48 + n) else Char.ofNat (87 + n)

def hex : Nat → Nat → List Char
  | 0, _ => []
  | width + 1, n => hex width (n / 16) ++ [hexDigit (n % 16)]

/-- The sixteen digits of the bits of a double. -/
def floatText (x : Float) : String :=
  if x.isNaN then "NaN" else String.ofList (hex 16 x.toBits.toNat)

def escape (c : Char) : List Char :=
  match c with
  | '"' => ['\\', '"']
  | '\\' => ['\\', '\\']
  | _ => if c.toNat < 0x20 then '\\' :: 'u' :: hex 4 c.toNat else [c]

/-- A text in quotes, after what is written already. -/
def quote (out : String) (s : String) : String :=
  (s.foldl (fun out c => (escape c).foldl String.push out) (out.push '"')).push '"'

mutual

def write (out : String) : Json → String
  | .null => out ++ "null"
  | .bool true => out ++ "true"
  | .bool false => out ++ "false"
  | .number (.int n) => out ++ toString n
  | .number (.float x) => quote out (floatText x)
  | .string s => quote out s
  | .array [] => out ++ "[]"
  | .array (x :: xs) => writeItems (x.write (out.push '[')) xs
  | .object [] => out ++ "\x7b\x7d"
  | .object ((k, x) :: ms) => writeMembers (x.write ((quote (out.push '{') k).push ':')) ms

/-- The remaining items of an array and its closing bracket. -/
def writeItems (out : String) : List Json → String
  | [] => out.push ']'
  | x :: xs => writeItems (x.write (out.push ',')) xs

def writeMembers (out : String) : List (String × Json) → String
  | [] => out.push '}'
  | (k, x) :: ms => writeMembers (x.write ((quote (out.push ',') k).push ':')) ms

end

def render (j : Json) : String := j.write ""

end RenderGate.Json
