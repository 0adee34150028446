import RenderGate.Text.Scan
import RenderGate.Json.Reader

/-!
# TOML text: blanks, strings and keys

Comments and strings may hold tabs, printable ASCII and everything beyond ASCII.  A string stands in
double quotes, with escapes, or in single quotes, without; three quotes on each side allow line
breaks.
-/

namespace RenderGate.Toml.Grammar

open Scan

def isGap (c : Char) : Bool := c == ' ' || c == '\t'

def isVisible (c : Char) : Bool := c == '\t' || (0x20 ≤ c.toNat && c != '\x7f')

/-- A character that stands for itself in double quotes. -/
def isPlain (c : Char) : Bool := isVisible c && c != '"' && c != '\\'

/-- A character that stands for itself in single quotes. -/
def isLiteral (c : Char) : Bool := isVisible c && c != '\''

def gap : Scan Unit := do discard (run isGap)

/-- Whether the text goes on with a line break, which is consumed then. -/
def acceptNewline : Scan Bool := do
  if ← accept "\n" then return true else accept "\r\n"

def acceptComment : Scan Bool := do
  if ← accept "#" then
    discard (run isVisible)
    return true
  else return false

/-- The rest of a line: blanks, an optional comment, and a line break or the end of the text. -/
def lineEnd : Scan Unit := do
  gap
  discard acceptComment
  if ← acceptNewline then return () else finish

def spaceStep : Scan (Option Unit) := do
  if ← acceptNewline then return some ()
  else if ← acceptComment then
    require (← acceptNewline)
    return some ()
  else
    let found ← run isGap
    return if found.isEmpty then none else some ()

/-- Blanks, line breaks and comments, of which there may be none. -/
def space : Scan Unit := do discard (repeated spaceStep)

def coded (count : Nat) : Scan Char := do
  let ds ← runOf count fun c => (Json.hexValue? c).isSome
  let code := ds.foldl (fun n d => 16 * n + (Json.hexValue? d).getD 0) 0
  require (decide (code < 0xD800) || (decide (0xDFFF < code) && decide (code < 0x110000)))
  return Char.ofNat code

def escaped : Scan Char := do
  match ← next with
  | 'b' => return '\x08'
  | 'f' => return '\x0c'
  | 'n' => return '\n'
  | 'r' => return '\r'
  | 't' => return '\t'
  | '"' => return '"'
  | '\\' => return '\\'
  | 'u' => coded 4
  | 'U' => coded 8
  | _ => refuse

/-- A part of a string in double quotes; at the closing quote there is none. -/
def basicPart : Scan (Option (List Char)) := do
  match ← peek? with
  | none => refuse
  | some '"' => return none
  | some '\\' =>
      char '\\'
      return some [← escaped]
  | some _ => some <$> run isPlain

def basicString : Scan String := do
  char '"'
  let parts ← repeated basicPart
  char '"'
  return String.ofList parts.flatten

def literalString : Scan String := do
  char '\''
  let cs ← run isLiteral
  char '\''
  return String.ofList cs

/-- Line breaks and blanks after a backslash at the end of a line. -/
def continuation : Scan (Option Unit) := do
  if ← acceptNewline then return some ()
  else
    let found ← run isGap
    return if found.isEmpty then none else some ()

/-- The characters of an escape, or none for a line that is continued. -/
def escapedOrContinued : Scan (List Char) := do
  char '\\'
  let cs ← rest
  match cs.dropWhile isGap with
  | '\n' :: _ | '\r' :: _ =>
      gap
      require (← acceptNewline)
      discard (repeated continuation)
      return []
  | _ => return [← escaped]

/-- A part of a string between three quotes; at the closing quotes there is none.  One or two quotes
are content. -/
def longPart (quote : Char) (escapes : Bool) : Scan (Option (List Char)) := do
  let cs ← rest
  let quotes := cs.takeWhile (· == quote)
  if quotes.length < 3 ∧ !quotes.isEmpty then
    set (cs.drop quotes.length)
    return some quotes
  else if !quotes.isEmpty then return none
  else if ← acceptNewline then return some ['\n']
  else if escapes && cs.head? == some '\\' then some <$> escapedOrContinued
  else some <$> run fun c => isVisible c && c != quote && !(escapes && c == '\\')

/-- A string between three quotes; a line break right after the opening quotes is dropped, and one
or two of at most five quotes at the end are content. -/
def longString (quote : Char) (escapes : Bool) : Scan String := do
  literal (String.ofList [quote, quote, quote])
  discard acceptNewline
  let parts ← repeated (longPart quote escapes)
  let quotes ← run (· == quote)
  require (decide (3 ≤ quotes.length) && decide (quotes.length ≤ 5))
  return String.ofList (parts.flatten ++ quotes.drop 3)

def string : Scan String := do
  let cs ← rest
  match cs with
  | '"' :: '"' :: '"' :: _ => longString '"' true
  | '\'' :: '\'' :: '\'' :: _ => longString '\'' false
  | '"' :: _ => basicString
  | _ => literalString

def isBare (c : Char) : Bool := c.isAlphanum || c == '-' || c == '_'

def keyPart : Scan String := do
  match ← peek? with
  | some '"' => basicString
  | some '\'' => literalString
  | _ =>
      let cs ← run isBare
      require !cs.isEmpty
      return String.ofList cs

/-- How deep values may be nested and how many parts a key may have, both exclusive. -/
def depthLimit : Nat := 80

/-- A dotted key, with blanks around its parts: the parts before the last, and the last. -/
def key : Scan (List String × String) := do
  gap
  let first ← keyPart
  gap
  let others ← repeated do
    if ← accept "." then
      gap
      let part ← keyPart
      gap
      return some part
    else return none
  let parts := first :: others
  require (decide (parts.length < depthLimit))
  return (parts.dropLast, parts.getLast?.getD first)

end RenderGate.Toml.Grammar
