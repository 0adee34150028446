/-!
# Operators and expression contexts

The leaves of an abstract tree that say which operation an expression performs and how a name is
used, with the source tokens that denote each operator.
-/

namespace RenderGate

inductive ExprContext where
  | load
  | store
  | del
deriving DecidableEq, Repr

def ExprContext.name : ExprContext → String
  | .load => "Load"
  | .store => "Store"
  | .del => "Del"

def ExprContext.all : List ExprContext := [.load, .store, .del]

def ExprContext.ofName? (name : String) : Option ExprContext := all.find? (·.name == name)

theorem ExprContext.ofName?_name (c : ExprContext) : ofName? c.name = some c := by
  cases c <;> rfl

inductive Operator where
  | and
  | or
  | add
  | sub
  | mult
  | matMult
  | div
  | mod
  | pow
  | lShift
  | rShift
  | bitOr
  | bitXor
  | bitAnd
  | floorDiv
  | invert
  | not
  | uAdd
  | uSub
  | eq
  | notEq
  | lt
  | ltE
  | gt
  | gtE
  | is
  | isNot
  | isIn
  | notIn
deriving DecidableEq, Repr

namespace Operator

def name : Operator → String
  | .and => "And"
  | .or => "Or"
  | .add => "Add"
  | .sub => "Sub"
  | .mult => "Mult"
  | .matMult => "MatMult"
  | .div => "Div"
  | .mod => "Mod"
  | .pow => "Pow"
  | .lShift => "LShift"
  | .rShift => "RShift"
  | .bitOr => "BitOr"
  | .bitXor => "BitXor"
  | .bitAnd => "BitAnd"
  | .floorDiv => "FloorDiv"
  | .invert => "Invert"
  | .not => "Not"
  | .uAdd => "UAdd"
  | .uSub => "USub"
  | .eq => "Eq"
  | .notEq => "NotEq"
  | .lt => "Lt"
  | .ltE => "LtE"
  | .gt => "Gt"
  | .gtE => "GtE"
  | .is => "Is"
  | .isNot => "IsNot"
  | .isIn => "In"
  | .notIn => "NotIn"

def all : List Operator :=
  [.and, .or, .add, .sub, .mult, .matMult, .div, .mod, .pow, .lShift, .rShift, .bitOr, .bitXor,
    .bitAnd, .floorDiv, .invert, .not, .uAdd, .uSub, .eq, .notEq, .lt, .ltE, .gt, .gtE, .is, .isNot,
    .isIn, .notIn]

def ofName? (name : String) : Option Operator := all.find? (·.name == name)

theorem ofName?_name (o : Operator) : ofName? o.name = some o := by
  cases o <;> rfl

def binaryTokens : List (String × Operator) :=
  [("+", .add), ("-", .sub), ("*", .mult), ("@", .matMult), ("/", .div), ("%", .mod), ("**", .pow),
    ("<<", .lShift), (">>", .rShift), ("|", .bitOr), ("^", .bitXor), ("&", .bitAnd),
    ("//", .floorDiv)]

def unaryTokens : List (String × Operator) :=
  [("+", .uAdd), ("-", .uSub), ("~", .invert), ("not", .not)]

def booleanTokens : List (String × Operator) := [("and", .and), ("or", .or)]

/-- The tokens of the comparisons; those of two words are joined by one blank. -/
def comparisonTokens : List (String × Operator) :=
  [("==", .eq), ("!=", .notEq), ("<", .lt), ("<=", .ltE), (">", .gt), (">=", .gtE), ("is", .is),
    ("is not", .isNot), ("in", .isIn), ("not in", .notIn)]

/-- A token without the equals sign that marks an assignment, if it ends in one. -/
def withoutAssignment (token : String) : String :=
  match token.toList.reverse with
  | '=' :: rest => String.ofList rest.reverse
  | _ => token

/-- The binary operator of a token, which may be that of an augmented assignment. -/
def binary? (token : String) : Option Operator := binaryTokens.lookup (withoutAssignment token)

def unary? (token : String) : Option Operator := unaryTokens.lookup token

def boolean? (token : String) : Option Operator := booleanTokens.lookup token

def comparison? (token : String) : Option Operator := comparisonTokens.lookup token

end Operator

end RenderGate
