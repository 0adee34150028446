import RenderGate.Toml.Basic
import RenderGate.Toml.Text
import RenderGate.Time.Calendar

/-!
# TOML numbers and dates

Underscores may stand between digits.  A whole number has 64 bits with a sign; a decimal above the
largest double is refused.
-/

namespace RenderGate.Toml.Grammar

open Scan

/-- Underscores stand only between two digits. -/
def wellSeparated : List Char → Bool
  | [] => true
  | ['_'] => false
  | '_' :: '_' :: _ => false
  | _ :: cs => wellSeparated cs

/-- Digits of a kind, of which there is at least one, without the underscores between them. -/
def digitsOf (isDigit : Char → Bool) : Scan (List Char) := do
  let cs ← run fun c => isDigit c || c == '_'
  require ((cs.head?.any isDigit) && wellSeparated cs)
  return cs.filter (· != '_')

/-- The whole number with a sign, if 64 bits hold it. -/
def wholeNumber (negative : Bool) (n : Nat) : Scan Toml := do
  require (decide (n < Nat.pow 2 63) || (negative && n == Nat.pow 2 63))
  return .integer (if negative then -(n : Int) else n)

/-- A whole number in a base that is a power of two. -/
def based (base : Nat) (isDigit : Char → Bool) : Scan Toml := do
  let ds ← digitsOf isDigit
  wholeNumber false (ds.foldl (fun n d => base * n + (Json.hexValue? d).getD 0) 0)

def exponent? : Scan (Option Int) := do
  let some c ← peek? | return none
  if c = 'e' ∨ c = 'E' then
    discard next
    let negative ← accept "-"
    unless negative do discard (accept "+")
    let n : Int := Decimal.value (← digitsOf Decimal.isDigit)
    return some (if negative then -n else n)
  else return none

/-- A decimal number after its sign: a whole part without superfluous zeros, an optional fraction
and an optional exponent. -/
def decimal (negative : Bool) : Scan Toml := do
  let whole ← digitsOf Decimal.isDigit
  require (whole.length == 1 || whole.head? != some '0')
  let fraction ← if ← accept "." then some <$> digitsOf Decimal.isDigit else pure none
  let exponent ← exponent?
  if fraction.isNone && exponent.isNone then wholeNumber negative (Decimal.value whole)
  else
    let places := fraction.getD []
    let x := Decimal.nearest negative (Decimal.value (whole ++ places))
      (exponent.getD 0 - (places.length : Int))
    require (negative || !x.isInf)
    return .float x

/-- Infinity or the value that is not a number, by name, after its sign. -/
def special (negative : Bool) : Scan Toml := do
  let x : Float ← if ← accept "inf" then pure (1.0 / 0.0) else do
    literal "nan"
    pure (0.0 / 0.0)
  return .float (if negative then -x else x)

def number : Scan Toml := do
  let negative ← accept "-"
  let signed ← if negative then pure true else accept "+"
  let cs ← rest
  match cs with
  | 'i' :: _ | 'n' :: _ => special negative
  | '0' :: 'x' :: _ =>
      require !signed
      set (cs.drop 2)
      based 16 fun c => (Json.hexValue? c).isSome
  | '0' :: 'o' :: _ =>
      require !signed
      set (cs.drop 2)
      based 8 fun c => '0' ≤ c && c ≤ '7'
  | '0' :: 'b' :: _ =>
      require !signed
      set (cs.drop 2)
      based 2 fun c => c == '0' || c == '1'
  | _ => decimal negative

def twoDigits (least most : Nat) : Scan Nat := do
  let n := Decimal.value (← runOf 2 Decimal.isDigit)
  require (decide (least ≤ n) && decide (n ≤ most))
  return n

def timeOfDay : Scan Unit := do
  discard (twoDigits 0 23)
  char ':'
  discard (twoDigits 0 59)
  char ':'
  discard (twoDigits 0 60)
  if ← accept "." then
    let ds ← run Decimal.isDigit
    require !ds.isEmpty

def clockOffset : Scan Unit := do
  let sign ← next
  if sign = '+' ∨ sign = '-' then
    discard (twoDigits 0 23)
    char ':'
    discard (twoDigits 0 59)
  else require (sign == 'Z' || sign == 'z')

def calendarDay : Scan Unit := do
  let year := Decimal.value (← runOf 4 Decimal.isDigit)
  char '-'
  let month ← twoDigits 1 12
  char '-'
  discard (twoDigits 1 (Date.monthLength year month))

/-- A date, which a time of day with an optional offset may follow. -/
def date : Scan Unit := do
  calendarDay
  let cs ← rest
  match cs with
  | c :: h :: _ =>
      if (c = 'T' ∨ c = 't' ∨ c = ' ') ∧ Decimal.isDigit h then
        discard next
        timeOfDay
        match ← peek? with
        | some z => if ['Z', 'z', '+', '-'].contains z then clockOffset
        | none => pure ()
  | _ => pure ()

/-- A number, date or time, told apart by the character after the leading digits. -/
def numberOrDate : Scan Toml := do
  let cs ← rest
  let leading := (cs.takeWhile Decimal.isDigit).length
  match leading, (cs.drop leading).head? with
  | 4, some '-' =>
      date
      return .dateTime
  | 2, some ':' =>
      timeOfDay
      return .dateTime
  | _, _ => number

end RenderGate.Toml.Grammar
