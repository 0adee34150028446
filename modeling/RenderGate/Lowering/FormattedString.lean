import RenderGate.Lowering.Scope

/-!
# Strings

A string is a constant unless one of its parts is marked as formatted.  A formatted string keeps its
interpolations, and a constant stands for each run of literal text between them, also across the
parts of a concatenation.
-/

namespace RenderGate.Scope

open Concrete (Tree)

variable {m : Type → Type} [Monad m] [MonadExcept ParseError m]

/-- A part of a string that interpolates: the letter `f` stands before its opening quote. -/
def isFormatted (scope : Scope m) (part : Tree) : m Bool :=
  match part.tokens.find? fun (c : Tree) => c.kind == "string_start" with
  | none => return false
  | some start => do
      let opening ← scope.text start
      return (opening.toList.takeWhile fun c => c != '"' && c != '\'').any
        fun c => c == 'f' || c == 'F'

/-- The content of a formatted string so far, and whether literal text has come since that no
constant stands for yet. -/
structure Joined where
  nodes : Array Node
  pending : Bool

namespace Joined

/-- A constant stands for the literal text that has come. -/
def flush (j : Joined) : Joined :=
  if j.pending then ⟨j.nodes.push (.leaf .constant), false⟩ else j

/-- One more piece: literal text is only noted, and a value follows the constant for it. -/
def add (j : Joined) : Option Node → Joined
  | none => { j with pending := true }
  | some value => ⟨j.flush.nodes.push value, false⟩

end Joined

/-- The content of a formatted string, in which `none` is literal text. -/
def joinPieces (pieces : List (Option Node)) : List Node :=
  (pieces.foldl Joined.add ⟨#[], false⟩).flush.nodes.toList

/-- The pieces of a format, which may hold interpolations again. -/
def formatPieces (spec : Tree) : List Tree := spec.tokens.filter fun (c : Tree) => c.kind != ":"

def interpolates (piece : Tree) : Bool :=
  piece.kind == "interpolation" || piece.kind == "format_expression"

def interpolation (scope : Scope m) (t : Tree) : m Node := do
  let inner ← match t.field? "expression" with
    | some value => pure value
    | none => scope.firstNamed t
  let value ← scope.expression .load inner
  match _ : t.field? "format_specifier" with
  | none => return .of .formattedValue [value]
  | some spec =>
      let pieces ← (formatPieces spec).attach.mapM fun ⟨piece, _⟩ =>
        if interpolates piece then some <$> scope.interpolation piece else pure none
      return .of .formattedValue [value, .of .joinedStr (joinPieces pieces)]
termination_by t.size
decreasing_by
  have hp : piece ∈ spec.tokens := (List.mem_filter.mp (by assumption)).1
  have := Tree.size_lt_of_mem_tokens hp
  have hs : t.field? "format_specifier" = some spec := by assumption
  have := Tree.size_lt_of_field? hs
  omega

def stringPieces (part : Tree) : List Tree :=
  part.tokens.filter fun (c : Tree) => c.kind != "string_start" && c.kind != "string_end"

/-- The content of a part, in which interpolations count only if it is formatted. -/
def partContent (scope : Scope m) (part : Tree) : m (List (Option Node)) := do
  let formatted ← scope.isFormatted part
  (stringPieces part).mapM fun piece =>
    if formatted && piece.kind == "interpolation" then some <$> scope.interpolation piece
    else pure none

def stringParts (t : Tree) : List Tree :=
  if t.kind = "concatenated_string" then t.named else [t]

def string (scope : Scope m) (t : Tree) : m Node := do
  let formatted ← (stringParts t).mapM scope.isFormatted
  if formatted.any id then
    let contents ← (stringParts t).mapM scope.partContent
    return .of .joinedStr (joinPieces contents.flatten)
  else return .leaf .constant

end RenderGate.Scope
