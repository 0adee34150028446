import RenderGate.Lowering.Expression

/-!
# Patterns

The lowering of one pattern of a `match` statement, given the lowering one level further in.  A
pattern that is no construction of patterns is a value to compare with.
-/

namespace RenderGate

open Concrete (Tree)

inductive PatternForm where
  | case
  | alias
  | capture
  | dottedName
  | singleton
  | complex
  | splat
  | sequence
  | union
  | keyword
  | ofClass
  | mapping
  | value
deriving DecidableEq

def PatternForm.kinds : List (String × PatternForm) :=
  [("case_pattern", .case), ("as_pattern", .alias), ("identifier", .capture),
    ("dotted_name", .dottedName), ("true", .singleton), ("false", .singleton),
    ("none", .singleton), ("complex_pattern", .complex), ("splat_pattern", .splat),
    ("list_pattern", .sequence), ("tuple_pattern", .sequence), ("union_pattern", .union),
    ("keyword_pattern", .keyword), ("class_pattern", .ofClass), ("dict_pattern", .mapping)]

def PatternForm.ofKind (kind : String) : PatternForm := (kinds.lookup kind).getD .value

namespace Scope

variable {m : Type → Type} [Monad m] [MonadExcept ParseError m]

def dottedAttributes (scope : Scope m) : Node → List Tree → m Node
  | value, [] => return value
  | value, part :: parts => do
      let attr ← scope.text part
      dottedAttributes scope (.of (.attribute attr) [value, .ctx .load]) parts

def dottedValue (scope : Scope m) (t : Tree) : m Node := do
  match t.named with
  | [] => scope.unsupported t
  | first :: parts => scope.dottedAttributes (← scope.name .load first) parts

/-- A part of a class pattern: the class itself or a pattern for an attribute. -/
def classPart (scope : Scope m) (t : Tree) : m Node :=
  if t.kind = "dotted_name" then scope.dottedValue t else scope.pattern t

/-- A part of a mapping pattern: the rest, a key or the pattern for a value. -/
def mappingPart (scope : Scope m) (t : Tree) : m Node :=
  if t.kind = "splat_pattern" then return .leaf .matchStar
  else if t.info.field = some "key" then
    if t.kind = "dotted_name" then scope.dottedValue t else scope.expression .load t
  else scope.pattern t

def patternOf (scope : Scope m) (t : Tree) : PatternForm → m Node
  | .case =>
      match t.named with
      | [] => return .leaf .matchAs
      | [inner] => scope.pattern inner
      | _ => scope.unsupported t
  | .alias => do return .of .matchAs [← scope.pattern (← scope.firstNamed t)]
  | .capture => return .leaf .matchAs
  | .dottedName =>
      match t.named with
      | [_] => return .leaf .matchAs
      | _ => do return .of .matchValue [← scope.dottedValue t]
  | .singleton => return .leaf .matchSingleton
  | .complex => return .of .matchValue [.leaf .constant]
  | .splat => return .leaf .matchStar
  | .sequence => do return .of .matchSequence (← t.named.mapM scope.pattern)
  | .union => do return .of .matchOr (← t.named.mapM scope.pattern)
  | .keyword =>
      match t.named.getLast? with
      | some value => scope.pattern value
      | none => scope.unsupported t
  | .ofClass => do return .of .matchClass (← t.named.mapM scope.classPart)
  | .mapping => do return .of .matchMapping (← t.named.mapM scope.mappingPart)
  | .value => do return .of .matchValue [← scope.expression .load t]

def patternNode (scope : Scope m) (t : Tree) : m Node :=
  scope.patternOf t (.ofKind t.kind)

/-- The pattern of a case; any number but one makes a sequence. -/
def casePattern (scope : Scope m) : List Tree → m Node
  | [t] => scope.pattern t
  | ts => do return .of .matchSequence (← ts.mapM scope.pattern)

def matchCase (scope : Scope m) (t : Tree) : m Node := do
  let pattern ← scope.casePattern (t.named.filter fun (c : Tree) => c.kind == "case_pattern")
  let guard ← match t.field? "guard" with
    | some g => List.singleton <$> scope.expression .load (← scope.firstNamed g)
    | none => pure []
  return .of .matchCase (pattern :: guard ++ (← scope.suite t "consequence"))

def matchStatement (scope : Scope m) (t : Tree) : m Node := do
  let subject ← scope.oneOrTuple .load (t.fields "subject")
  let body ← scope.required t "body"
  let cases ← (body.named.filter fun (c : Tree) => c.kind == "case_clause").mapM scope.matchCase
  return .of .matchStmt (subject :: cases)

end Scope

end RenderGate
