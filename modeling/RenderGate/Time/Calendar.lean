/-!
# Calendar

Dates of the Gregorian calendar, extended to all years, and instants in universal time.
-/

namespace RenderGate

structure Date where
  year : Int
  month : Nat
  day : Nat
deriving DecidableEq, Repr

/-- A moment in universal time.  The second of a minute is below 60, and a leap second counts as
the last second of its minute with nanoseconds from a billion on. -/
structure Instant where
  date : Date
  /-- The minutes since midnight. -/
  minute : Nat
  second : Nat
  nanos : Nat
deriving DecidableEq, Repr

namespace Date

def isLeapYear (year : Int) : Bool := year % 4 == 0 && (year % 100 != 0 || year % 400 == 0)

def monthLength (year : Int) (month : Nat) : Nat :=
  if month = 2 then (if isLeapYear year then 29 else 28)
  else if month = 4 ∨ month = 6 ∨ month = 9 ∨ month = 11 then 30
  else 31

def inRange (d : Date) : Bool := -262143 ≤ d.year && d.year ≤ 262142

def isValid (d : Date) : Bool :=
  d.inRange && 1 ≤ d.month && d.month ≤ 12 && 1 ≤ d.day && d.day ≤ monthLength d.year d.month

def next (d : Date) : Date :=
  if d.day < monthLength d.year d.month then { d with day := d.day + 1 }
  else if d.month < 12 then { d with month := d.month + 1, day := 1 }
  else { year := d.year + 1, month := 1, day := 1 }

def previous (d : Date) : Date :=
  if 1 < d.day then { d with day := d.day - 1 }
  else if 1 < d.month then
    { d with month := d.month - 1, day := monthLength d.year (d.month - 1) }
  else { year := d.year - 1, month := 12, day := 31 }

end Date

def minutesPerDay : Nat := 1440

/-- The date and minute of a local date and minute whose clock is ahead by less than a day. -/
def universal (date : Date) (minute : Nat) (ahead : Int) : Date × Nat :=
  let m := (minute : Int) - ahead
  if m < 0 then (date.previous, (m + minutesPerDay).toNat)
  else if (minutesPerDay : Int) ≤ m then (date.next, (m - minutesPerDay).toNat)
  else (date, m.toNat)

end RenderGate
