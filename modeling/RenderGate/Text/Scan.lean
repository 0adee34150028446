import RenderGate.Decimal.Reading
import RenderGate.Text.Blank

/-!
# Scanning text

A scan consumes characters from the front of a text and yields a value, or refuses.  Alternatives
start again at the same place.
-/

namespace RenderGate

/-- A reading of the front of a text, which keeps the characters that follow. -/
abbrev Scan := StateT (List Char) Option

namespace Scan

def refuse {α : Type} : Scan α := failure

def require (condition : Bool) : Scan Unit := if condition then pure () else refuse

def ofOption {α : Type} : Option α → Scan α
  | some x => pure x
  | none => refuse

def rest : Scan (List Char) := get

/-- The next character, which stays. -/
def peek? : Scan (Option Char) := do return (← rest).head?

def next : Scan Char := do
  match ← rest with
  | [] => refuse
  | c :: cs =>
      set cs
      return c

def char (c : Char) : Scan Unit := do require ((← next) == c)

def literal (text : String) : Scan Unit := do
  let cs ← rest
  if text.toList.isPrefixOf cs then set (cs.drop text.length) else refuse

/-- Whether the text goes on with the given characters, which are consumed then. -/
def accept (text : String) : Scan Bool := do
  let cs ← rest
  if text.toList.isPrefixOf cs then
    set (cs.drop text.length)
    return true
  else return false

def run (condition : Char → Bool) : Scan (List Char) := do
  let cs ← rest
  set (cs.dropWhile condition)
  return cs.takeWhile condition

def runUpTo (limit : Nat) (condition : Char → Bool) : Scan (List Char) := do
  let cs ← rest
  let found := (cs.take limit).takeWhile condition
  set (cs.drop found.length)
  return found

def runOf (count : Nat) (condition : Char → Bool) : Scan (List Char) := do
  let found ← runUpTo count condition
  require (found.length == count)
  return found

/-- The values of a scan that is repeated until it yields none, from the given characters on.  Each
value must have consumed some of them. -/
def repeatedFrom {α : Type} (scan : Scan (Option α)) (cs : List Char) :
    Option (List α × List Char) :=
  match scan cs with
  | none => none
  | some (none, rest) => some ([], rest)
  | some (some x, rest) =>
      if _ : rest.length < cs.length then
        (repeatedFrom scan rest).map fun (xs, rest) => (x :: xs, rest)
      else none
termination_by cs.length

def repeated {α : Type} (scan : Scan (Option α)) : Scan (List α) := repeatedFrom scan

def finish : Scan Unit := do require (← rest).isEmpty

def whole? {α : Type} (scan : Scan α) (text : String) : Option α :=
  (StateT.run (scan <* finish) text.toList).map Prod.fst

end Scan

end RenderGate
