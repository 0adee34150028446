import RenderGate.Json.Basic
import RenderGate.Decimal.Reading

/-!
# Reading JSON text

One pass over the characters.  A number without point and exponent is a whole number if it fits 64
bits, signed or unsigned, and otherwise a double; negative zero is a double.  Of two steps in a row
at least one consumes a character, so twice the number of characters bounds the number of steps.
-/

namespace RenderGate.Json

def isSpace (c : Char) : Bool := c = ' ' || c = '\n' || c = '\r' || c = '\t'

def skip (cs : List Char) : List Char := cs.dropWhile isSpace

def hexValue? (c : Char) : Option Nat :=
  if '0' ≤ c && c ≤ '9' then some (c.toNat - '0'.toNat)
  else if 'a' ≤ c && c ≤ 'f' then some (c.toNat - 'a'.toNat + 10)
  else if 'A' ≤ c && c ≤ 'F' then some (c.toNat - 'A'.toNat + 10)
  else none

def unit? : List Char → Option (Nat × List Char)
  | a :: b :: c :: d :: rest => do
      let a ← hexValue? a
      let b ← hexValue? b
      let c ← hexValue? c
      let d ← hexValue? d
      return (((a * 16 + b) * 16 + c) * 16 + d, rest)
  | _ => none

/-- The character of one unit of sixteen bits, or of two that form a pair. -/
def escaped? (cs : List Char) : Option (Char × List Char) := do
  let (high, rest) ← unit? cs
  if 0xD800 ≤ high && high < 0xDC00 then
    match rest with
    | '\\' :: 'u' :: rest =>
        let (low, rest) ← unit? rest
        if 0xDC00 ≤ low && low < 0xE000 then
          return (Char.ofNat (0x10000 + (high - 0xD800) * 0x400 + (low - 0xDC00)), rest)
        else none
    | _ => none
  else if 0xDC00 ≤ high && high < 0xE000 then none
  else return (Char.ofNat high, rest)

def letter? : Char → Option Char
  | '"' => some '"'
  | '\\' => some '\\'
  | '/' => some '/'
  | 'b' => some '\x08'
  | 'f' => some '\x0c'
  | 'n' => some '\n'
  | 'r' => some '\r'
  | 't' => some '\t'
  | _ => none

/-- The characters of a string up to its closing quote, in front of those read before. -/
def readString : Nat → List Char → List Char → Option (String × List Char)
  | 0, _, _ => none
  | _ + 1, _, [] => none
  | _ + 1, read, '"' :: rest => some (String.ofList read.reverse, rest)
  | steps + 1, read, '\\' :: 'u' :: rest => do
      let (c, rest) ← escaped? rest
      readString steps (c :: read) rest
  | steps + 1, read, '\\' :: l :: rest => do
      let c ← letter? l
      readString steps (c :: read) rest
  | steps + 1, read, c :: rest =>
      if c = '\\' || c.toNat < 0x20 then none else readString steps (c :: read) rest

/-- The whole number with the given sign and digits, or the nearest double. -/
def wholeNumber (negative : Bool) (n : Nat) : Option Number :=
  if negative then
    if n = 0 || Nat.pow 2 63 < n then some (.float (Decimal.nearest true n 0))
    else some (.int (-(n : Int)))
  else if n < Nat.pow 2 64 then some (.int n)
  else some (.float (Decimal.nearest false n 0))

def exponent? (cs : List Char) : Option (Int × List Char) :=
  let (negative, rest) := match cs with
    | '+' :: rest => (false, rest)
    | '-' :: rest => (true, rest)
    | _ => (false, cs)
  let ds := rest.takeWhile Decimal.isDigit
  if ds.isEmpty then none
  else
    let n : Int := Decimal.value ds
    some (if negative then -n else n, rest.dropWhile Decimal.isDigit)

/-- The optional exponent of a decimal with the given digits, of which `places` follow the point. -/
def scaled (negative : Bool) (digits places : Nat) (fractional : Bool) (cs : List Char) :
    Option (Number × List Char) :=
  match cs with
  | 'e' :: rest | 'E' :: rest => do
      let (e, rest) ← exponent? rest
      finite? (Decimal.nearest negative digits (e - places)) rest
  | _ =>
      if fractional then finite? (Decimal.nearest negative digits (-(places : Int))) cs
      else (wholeNumber negative digits).bind fun
        | .float x => finite? x cs
        | n => some (n, cs)
where
  /-- Numbers beyond the largest double are refused. -/
  finite? (x : Float) (rest : List Char) : Option (Number × List Char) :=
    if x.isInf then none else some (.float x, rest)

/-- A number: an integer part without superfluous zeros, an optional fraction and exponent. -/
def readNumber (cs : List Char) : Option (Number × List Char) :=
  let (negative, cs) := match cs with
    | '-' :: rest => (true, rest)
    | _ => (false, cs)
  let whole := cs.takeWhile Decimal.isDigit
  let rest := cs.dropWhile Decimal.isDigit
  if whole.isEmpty || (whole.length ≠ 1 && whole.head? = some '0') then none
  else
    match rest with
    | '.' :: rest =>
        let fraction := rest.takeWhile Decimal.isDigit
        if fraction.isEmpty then none
        else
          scaled negative (Decimal.value (whole ++ fraction)) fraction.length true
            (rest.dropWhile Decimal.isDigit)
    | _ => scaled negative (Decimal.value whole) 0 false rest

mutual

def readValue : Nat → List Char → Option (Json × List Char)
  | 0, _ => none
  | steps + 1, cs =>
      match skip cs with
      | 'n' :: 'u' :: 'l' :: 'l' :: rest => some (.null, rest)
      | 't' :: 'r' :: 'u' :: 'e' :: rest => some (.bool true, rest)
      | 'f' :: 'a' :: 'l' :: 's' :: 'e' :: rest => some (.bool false, rest)
      | '"' :: rest => (readString (steps + 1) [] rest).map fun (s, rest) => (.string s, rest)
      | '[' :: rest =>
          match skip rest with
          | ']' :: rest => some (.array [], rest)
          | _ => (readItems steps [] rest).map fun (xs, rest) => (.array xs, rest)
      | '{' :: rest =>
          match skip rest with
          | '}' :: rest => some (.object [], rest)
          | _ => (readMembers steps [] rest).map fun (ms, rest) => (ofMembers ms, rest)
      | rest => (readNumber rest).map fun (n, rest) => (.number n, rest)

/-- Values separated by commas up to the closing bracket, after those read before. -/
def readItems : Nat → List Json → List Char → Option (List Json × List Char)
  | 0, _, _ => none
  | steps + 1, read, cs =>
      (readValue steps cs).bind fun (x, rest) =>
        match skip rest with
        | ',' :: rest => readItems steps (x :: read) rest
        | ']' :: rest => some ((x :: read).reverse, rest)
        | _ => none

def readMembers : Nat → List (String × Json) → List Char → Option (List (String × Json) × List Char)
  | 0, _, _ => none
  | steps + 1, read, cs =>
      match skip cs with
      | '"' :: rest =>
          (readString (steps + 1) [] rest).bind fun (name, rest) =>
            match skip rest with
            | ':' :: rest =>
                (readValue steps rest).bind fun (x, rest) =>
                  match skip rest with
                  | ',' :: rest => readMembers steps ((name, x) :: read) rest
                  | '}' :: rest => some (((name, x) :: read).reverse, rest)
                  | _ => none
            | _ => none
      | _ => none

end

/-- The value that a text holds, if it is well formed and nothing follows. -/
def read? (text : String) : Option Json :=
  let cs := text.toList
  match readValue (2 * cs.length + 2) cs with
  | some (j, rest) => if (skip rest).isEmpty then some j else none
  | none => none

end RenderGate.Json
