/-!
# TOML values

The values of a TOML document.  A table remembers how it came about, because that decides whether
later lines may add to it: a table that only stands on the way to another may still get its own
header, dotted keys may go on with a table that dotted keys began, and an inline table is complete.
-/

namespace RenderGate

inductive Toml.Origin where
  /-- By its header, or as the table of the whole document. -/
  | header
  /-- On the way to a table with a header. -/
  | implied
  /-- On the way of a dotted key. -/
  | dotted
  /-- Inline, as a value. -/
  | inlined
deriving DecidableEq, Repr

inductive Toml where
  | string (s : String)
  | integer (n : Int)
  | float (x : Float)
  | boolean (b : Bool)
  /-- A date, a time or both; nothing reads which. -/
  | dateTime
  | array (items : List Toml)
  | table (origin : Toml.Origin) (entries : List (String × Toml))
  /-- An array whose elements are tables with headers, each a list of entries. -/
  | tables (elements : List (List (String × Toml)))

namespace Toml

abbrev Entries := List (String × Toml)

/-- The entries with a value under a key, in place of the one before. -/
def Entries.put (es : Entries) (key : String) (value : Toml) : Entries :=
  es.filter (fun e => e.1 != key) ++ [(key, value)]

/-- Changes the table at the end of a path, going into the last element of an array of tables.
Tables that are missing on the way come about by `created`; dotted keys do not go into a table that
has a header, and nothing goes into a value. -/
def Entries.change (created : Origin) (f : Origin → Entries → Option Entries) :
    List String → Origin → Entries → Option Entries
  | [], origin, es => f origin es
  | key :: keys, _, es =>
      match es.lookup key with
      | none => do
          let inner ← change created f keys created []
          return es.put key (.table created inner)
      | some (.table origin inner) =>
          if origin = .inlined ∨ (created = .dotted ∧ origin = .header) then none
          else do
            let inner ← change created f keys origin inner
            return es.put key (.table origin inner)
      | some (.tables elements) =>
          match elements.getLast? with
          | none => none
          | some last => do
              let last ← change created f keys .header last
              return es.put key (.tables (elements.dropLast ++ [last]))
      | some _ => none

/-- Adds a value under a key that must be new. -/
def Entries.add (es : Entries) (key : String) (value : Toml) : Option Entries :=
  if (es.lookup key).isSome then none else some (es ++ [(key, value)])

/-- Adds a value under a dotted key; the tables before its last part must have come about by dotted
keys. -/
def Entries.addDotted (es : Entries) (path : List String) (key : String) (value : Toml) :
    Option Entries :=
  es.change .dotted
    (fun origin inner => if path.isEmpty ∨ origin = .dotted then inner.add key value else none)
    path .header

end Toml

end RenderGate
