import RenderGate.Toml.Number

/-!
# TOML documents

A document is a list of lines.  An entry belongs to the last header before it, and a header names
the path to a table or to a new element of an array of tables.
-/

namespace RenderGate.Toml

namespace Grammar

open Scan

def inlineEntry (value : Scan Toml) : Scan ((List String × String) × Toml) := do
  let k ← key
  char '='
  gap
  let v ← value
  gap
  return (k, v)

def tableOf? (entries : List ((List String × String) × Toml)) : Option Entries :=
  entries.foldlM (fun es e => es.addDotted e.1.1 e.1.2 e.2) []

/-- An inline table, which has no comma at its end. -/
def inlineTable (value : Scan Toml) : Scan Toml := do
  char '{'
  gap
  if ← accept "\x7d" then return .table .inlined []
  else
    let first ← inlineEntry value
    let others ← repeated do
      if ← accept "," then some <$> inlineEntry value else return none
    char '}'
    return .table .inlined (← ofOption (tableOf? (first :: others)))

/-- An element of an array with the comma after it; at the closing bracket there is none. -/
def element (value : Scan Toml) : Scan (Option Toml) := do
  space
  if (← peek?) == some ']' then return none
  else
    let v ← value
    space
    unless ← accept "," do require ((← peek?) == some ']')
    return some v

/-- An array, which may have a comma at its end. -/
def array (value : Scan Toml) : Scan Toml := do
  char '['
  let items ← repeated (element value)
  char ']'
  return .array items

def scalar : Scan Toml := do
  match ← peek? with
  | some '"' | some '\'' => Toml.string <$> string
  | some 't' =>
      literal "true"
      return .boolean true
  | some 'f' =>
      literal "false"
      return .boolean false
  | _ => numberOrDate

/-- A value in which arrays and inline tables are nested at most the given number of levels. -/
def value : Nat → Scan Toml
  | 0 => scalar
  | levels + 1 => do
      match ← peek? with
      | some '[' => array (value levels)
      | some '{' => inlineTable (value levels)
      | _ => scalar

inductive Line where
  | entry (path : List String) (key : String) (value : Toml)
  | table (path : List String) (key : String)
  | element (path : List String) (key : String)

def header : Scan Line := do
  if ← accept "[[" then
    let (path, key) ← key
    literal "]]"
    return .element path key
  else
    char '['
    let (path, key) ← key
    char ']'
    return .table path key

def entry : Scan Line := do
  let (path, key) ← key
  char '='
  gap
  return .entry path key (← value (depthLimit - 1))

/-- What a line says, if anything; at the end of the text there is no line. -/
def line : Scan (Option (Option Line)) := do
  gap
  match ← peek? with
  | none => return none
  | some '#' | some '\n' | some '\r' =>
      lineEnd
      return some none
  | some '[' =>
      let l ← header
      lineEnd
      return some (some l)
  | some _ =>
      let l ← entry
      lineEnd
      return some (some l)

/-- The lines of a document, which a byte order mark may precede. -/
def lines : Scan (List Line) := do
  discard (accept "\ufeff")
  return (← repeated line).filterMap id

end Grammar

open Grammar (Line)

/-- The entries up to the next header, and the lines from there on. -/
def ownEntries : List Line → List ((List String × String) × Toml) × List Line
  | .entry path key value :: rest =>
      let (entries, rest) := ownEntries rest
      (((path, key), value) :: entries, rest)
  | rest => ([], rest)

theorem length_ownEntries_le (ls : List Line) : (ownEntries ls).2.length ≤ ls.length := by
  induction ls with
  | nil => simp [ownEntries]
  | cons l ls ih =>
      cases l with
      | entry path key value =>
          simp only [ownEntries, List.length_cons]
          omega
      | table path key => simp [ownEntries]
      | element path key => simp [ownEntries]

def Entries.addAll (es : Entries) (entries : List ((List String × String) × Toml)) :
    Option Entries :=
  entries.foldlM (fun es e => es.addDotted e.1.1 e.1.2 e.2) es

/-- The document with the table of a header.  A table with this path may exist only if it came about
on the way to another. -/
def openTable (path : List String) (key : String)
    (entries : List ((List String × String) × Toml)) (es : Entries) : Option Entries :=
  es.change .implied
    (fun _ parent =>
      match parent.lookup key with
      | none => do return parent.put key (.table .header (← Entries.addAll [] entries))
      | some (.table .implied inner) => do
          return parent.put key (.table .header (← Entries.addAll inner entries))
      | some _ => none)
    path .header

/-- The document with one more element of the array of tables of a header. -/
def openElement (path : List String) (key : String)
    (entries : List ((List String × String) × Toml)) (es : Entries) : Option Entries :=
  es.change .implied
    (fun _ parent => do
      let element ← Entries.addAll [] entries
      match parent.lookup key with
      | none => return parent.put key (.tables [element])
      | some (.tables elements) => return parent.put key (.tables (elements ++ [element]))
      | some _ => none)
    path .header

def addTables (es : Entries) : List Line → Option Entries
  | [] => some es
  | .table path key :: ls => do
      let es ← openTable path key (ownEntries ls).1 es
      addTables es (ownEntries ls).2
  | .element path key :: ls => do
      let es ← openElement path key (ownEntries ls).1 es
      addTables es (ownEntries ls).2
  | .entry _ _ _ :: _ => none
termination_by ls => ls.length
decreasing_by
  all_goals
    have := length_ownEntries_le ls
    simp only [List.length_cons]
    omega

def ofLines? (ls : List Line) : Option Entries := do
  let es ← Entries.addAll [] (ownEntries ls).1
  addTables es (ownEntries ls).2

def read? (document : String) : Option Entries := (Grammar.lines.whole? document).bind ofLines?

end RenderGate.Toml
