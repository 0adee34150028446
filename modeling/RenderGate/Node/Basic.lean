import RenderGate.Rose.Walk
import RenderGate.Node.Operator

/-!
# Abstract trees

The tree of a program with one kind of node per class of the abstract grammar of Python.  Of names
and literals only what a comparison reads is kept: declared names, identifiers and attributes.  A
node has two names.  The class name is the one that fingerprints and tokens show, and the variant
name is the one that the wire form shows; they differ for seven kinds only.
-/

namespace RenderGate

inductive Kind where
  | module
  | functionDef (name : String)
  | asyncFunctionDef (name : String)
  | classDef (name : String)
  | returnValue
  | delete
  | assign
  | augAssign
  | annAssign
  | forLoop
  | asyncFor
  | whileLoop
  | ifElse
  | withBlock
  | asyncWith
  | matchStmt
  | raise
  | tryBlock
  | tryStar
  | assertion
  | importNames
  | importFrom
  | globalNames
  | nonlocalNames
  | expr
  | pass
  | breakLoop
  | continueLoop
  | typeAlias
  | boolOp
  | namedExpr
  | binOp
  | unaryOp
  | lambda
  | ifExp
  | dict
  | setDisplay
  | listComp
  | setComp
  | dictComp
  | generatorExp
  | await
  | yield
  | yieldFrom
  | compare
  | call
  | formattedValue
  | joinedStr
  | constant
  | attribute (attr : String)
  | subscript
  | starred
  | name (id : String)
  | list
  | tuple
  | slice
  | matchValue
  | matchSingleton
  | matchSequence
  | matchMapping
  | matchClass
  | matchStar
  | matchAs
  | matchOr
  | arguments
  | arg (name : String)
  | keyword (arg : Option String)
  | alias (name : String)
  | withItem
  | comprehension
  | exceptHandler (name : Option String)
  | matchCase
  | typeVar
  | paramSpec
  | typeVarTuple
  | context (context : ExprContext)
  | op (operator : Operator)
deriving DecidableEq, Repr

namespace Kind

/-- The name under which the wire form shows a kind, for contexts and operators that of their
group. -/
def variantName : Kind → String
  | .module => "Module"
  | .functionDef _ => "FunctionDef"
  | .asyncFunctionDef _ => "AsyncFunctionDef"
  | .classDef _ => "ClassDef"
  | .returnValue => "Return"
  | .delete => "Delete"
  | .assign => "Assign"
  | .augAssign => "AugAssign"
  | .annAssign => "AnnAssign"
  | .forLoop => "For"
  | .asyncFor => "AsyncFor"
  | .whileLoop => "While"
  | .ifElse => "If"
  | .withBlock => "With"
  | .asyncWith => "AsyncWith"
  | .matchStmt => "Match"
  | .raise => "Raise"
  | .tryBlock => "Try"
  | .tryStar => "TryStar"
  | .assertion => "Assert"
  | .importNames => "Import"
  | .importFrom => "ImportFrom"
  | .globalNames => "Global"
  | .nonlocalNames => "Nonlocal"
  | .expr => "Expr"
  | .pass => "Pass"
  | .breakLoop => "Break"
  | .continueLoop => "Continue"
  | .typeAlias => "TypeAlias"
  | .boolOp => "BoolOp"
  | .namedExpr => "NamedExpr"
  | .binOp => "BinOp"
  | .unaryOp => "UnaryOp"
  | .lambda => "Lambda"
  | .ifExp => "IfExp"
  | .dict => "Dict"
  | .setDisplay => "Set"
  | .listComp => "ListComp"
  | .setComp => "SetComp"
  | .dictComp => "DictComp"
  | .generatorExp => "GeneratorExp"
  | .await => "Await"
  | .yield => "Yield"
  | .yieldFrom => "YieldFrom"
  | .compare => "Compare"
  | .call => "Call"
  | .formattedValue => "FormattedValue"
  | .joinedStr => "JoinedStr"
  | .constant => "Constant"
  | .attribute _ => "Attribute"
  | .subscript => "Subscript"
  | .starred => "Starred"
  | .name _ => "Name"
  | .list => "List"
  | .tuple => "Tuple"
  | .slice => "Slice"
  | .matchValue => "MatchValue"
  | .matchSingleton => "MatchSingleton"
  | .matchSequence => "MatchSequence"
  | .matchMapping => "MatchMapping"
  | .matchClass => "MatchClass"
  | .matchStar => "MatchStar"
  | .matchAs => "MatchAs"
  | .matchOr => "MatchOr"
  | .arguments => "Arguments"
  | .arg _ => "Arg"
  | .keyword _ => "Keyword"
  | .alias _ => "Alias"
  | .withItem => "WithItem"
  | .comprehension => "Comprehension"
  | .exceptHandler _ => "ExceptHandler"
  | .matchCase => "MatchCase"
  | .typeVar => "TypeVar"
  | .paramSpec => "ParamSpec"
  | .typeVarTuple => "TypeVarTuple"
  | .context _ => "Context"
  | .op _ => "Op"

def typeName : Kind → String
  | .arguments => "arguments"
  | .arg _ => "arg"
  | .keyword _ => "keyword"
  | .alias _ => "alias"
  | .withItem => "withitem"
  | .comprehension => "comprehension"
  | .matchCase => "match_case"
  | .context c => c.name
  | .op o => o.name
  | k => k.variantName

def plain : List Kind :=
  [.module, .returnValue, .delete, .assign, .augAssign, .annAssign, .forLoop, .asyncFor, .whileLoop,
    .ifElse, .withBlock, .asyncWith, .matchStmt, .raise, .tryBlock, .tryStar, .assertion,
    .importNames, .importFrom, .globalNames, .nonlocalNames, .expr, .pass, .breakLoop,
    .continueLoop, .typeAlias, .boolOp, .namedExpr, .binOp, .unaryOp, .lambda, .ifExp, .dict,
    .setDisplay, .listComp, .setComp, .dictComp, .generatorExp, .await, .yield, .yieldFrom,
    .compare, .call, .formattedValue, .joinedStr, .constant, .subscript, .starred, .list, .tuple,
    .slice, .matchValue, .matchSingleton, .matchSequence, .matchMapping, .matchClass, .matchStar,
    .matchAs, .matchOr, .arguments, .withItem, .comprehension, .matchCase, .typeVar, .paramSpec,
    .typeVarTuple]

def plain? (variant : String) : Option Kind := plain.find? (·.variantName == variant)

end Kind

abbrev Node := Rose Kind

namespace Node

def of (kind : Kind) (children : List Node) : Node := .node kind children

def leaf (kind : Kind) : Node := .node kind []

def ctx (context : ExprContext) : Node := leaf (.context context)

def op (operator : Operator) : Node := leaf (.op operator)

def kind (n : Node) : Kind := n.value

def typeName (n : Node) : String := n.kind.typeName

/-- The number of nodes, which are counted on a walk. -/
def size (n : Node) : Nat := Rose.walk .leftward (fun count _ _ => count + 1) [(0, n)] 0

/-- A module without statements. -/
def isEmpty (n : Node) : Bool := n.children.isEmpty

end Node

end RenderGate
