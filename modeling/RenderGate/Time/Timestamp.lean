import RenderGate.Text.Scan
import RenderGate.Time.Calendar

/-!
# Timestamps

The text of an instant: date and time of day, separated by `T`, with the offset of the local clock.
Reading is lenient, and blanks may stand before the numbers and around the separators; writing
always uses universal time, `Z` and the fewest groups of three places for the fraction.
-/

namespace RenderGate

namespace Timestamp

open Scan

def blanks : Scan Unit := do discard (run Text.isBlank)

def number (limit : Nat) : Scan Nat := do
  blanks
  let ds ← runUpTo limit Decimal.isDigit
  require !ds.isEmpty
  return Decimal.value ds

/-- A year of at most four digits, or of any number of digits after a sign. -/
def year : Scan Int := do
  blanks
  let negative ← accept "-"
  let signed ← if negative then pure true else accept "+"
  let ds ← if signed then run Decimal.isDigit else runUpTo 4 Decimal.isDigit
  require !ds.isEmpty
  let n : Int := Decimal.value ds
  return if negative then -n else n

def separator (c : Char) : Scan Unit := do
  blanks
  char c

def date : Scan Date := do
  let y ← year
  separator '-'
  let m ← number 2
  separator '-'
  let d ← number 2
  let date : Date := ⟨y, m, d⟩
  require date.isValid
  return date

/-- The nanoseconds of an optional fraction of a second; places after the ninth are dropped. -/
def fraction : Scan Nat := do
  if ← accept "." then
    let ds ← run Decimal.isDigit
    require !ds.isEmpty
    return Decimal.value ((ds ++ List.replicate 9 '0').take 9)
  else return 0

def isUniversalName (cs : List Char) : Bool :=
  cs.map Char.toUpper == ['U', 'T', 'C']

/-- By how many minutes the local clock is ahead: zero by name, or a sign, hours and minutes. -/
def offset : Scan Int := do
  let cs ← rest
  if isUniversalName (cs.take 3) then
    set (cs.drop 3)
    return 0
  else
    let sign ← next
    if sign = 'Z' ∨ sign = 'z' then return 0
    else
      require (sign = '+' ∨ sign = '-' ∨ sign = '\u2212')
      let hours := Decimal.value (← runOf 2 Decimal.isDigit)
      discard (run fun c => c == ':' || Text.isBlank c)
      let minutes := Decimal.value (← runOf 2 Decimal.isDigit)
      require (decide (minutes < 60) && decide (hours < 24))
      let ahead : Int := hours * 60 + minutes
      return if sign = '+' then ahead else -ahead

def instant : Scan Instant := do
  let day ← date
  let t ← next
  require (t = 't' ∨ t = 'T' ∨ t = ' ')
  let hour ← number 2
  separator ':'
  let minute ← number 2
  separator ':'
  let second ← number 2
  let nanos ← fraction
  blanks
  let ahead ← offset
  blanks
  require (decide (hour < 24) && decide (minute < 60) && decide (second ≤ 60))
  let (day, minute) := universal day (hour * 60 + minute) ahead
  require day.inRange
  return {
    date := day
    minute := minute
    second := min second 59
    nanos := if second = 60 then nanos + 1000000000 else nanos }

/-- A number with zeros in front up to a width. -/
def padded (width n : Nat) : List Char :=
  let ds := Nat.toDigits 10 n
  List.replicate (width - ds.length) '0' ++ ds

/-- A year; one that has not four digits carries its sign. -/
def yearText (y : Int) : List Char :=
  if y < 0 then '-' :: padded 4 y.natAbs
  else if 9999 < y then '+' :: padded 4 y.natAbs
  else padded 4 y.natAbs

/-- The fraction of a second with as few groups of three places as it needs. -/
def fractionText (nanos : Nat) : List Char :=
  if nanos = 0 then []
  else if nanos % 1000000 = 0 then '.' :: padded 3 (nanos / 1000000)
  else if nanos % 1000 = 0 then '.' :: padded 6 (nanos / 1000)
  else '.' :: padded 9 nanos

end Timestamp

namespace Instant

open Timestamp

def ofText? (text : String) : Option Instant := instant.whole? text

/-- The text of an instant; the second of a leap second is 60. -/
def text (i : Instant) : String :=
  let leap := 1000000000 ≤ i.nanos
  String.ofList <|
    yearText i.date.year ++ '-' :: padded 2 i.date.month ++ '-' :: padded 2 i.date.day ++
      'T' :: padded 2 (i.minute / 60) ++ ':' :: padded 2 (i.minute % 60) ++
      ':' :: padded 2 (if leap then i.second + 1 else i.second) ++
      fractionText (if leap then i.nanos - 1000000000 else i.nanos) ++ ['Z']

end Instant

end RenderGate
