import RenderGate.Lowering.FormattedString

/-!
# Expressions

The lowering of one expression, given the lowering one level further in.  The context tells whether
the expression is read, assigned to or deleted; displays and parentheses hand it on to their
elements, and everything else reads its parts.
-/

namespace RenderGate

open Concrete (Tree)

inductive ExpressionForm where
  | name
  | attribute
  | subscript
  | slice
  | call
  | binary
  | unary
  | negation
  | boolean
  | comparison
  | constant
  | string
  | list
  | tuple
  | set
  | dictionary
  | comprehension (kind : Kind)
  | lambda
  | conditional
  | wrapper
  | genericType
  | unionType
  | memberType
  | splatType
  | await
  | yield
  | assignment
  | splat
deriving DecidableEq

def ExpressionForm.kinds : List (String × ExpressionForm) :=
  [("identifier", .name), ("keyword_identifier", .name), ("attribute", .attribute),
    ("subscript", .subscript), ("slice", .slice), ("call", .call), ("binary_operator", .binary),
    ("unary_operator", .unary), ("not_operator", .negation), ("boolean_operator", .boolean),
    ("comparison_operator", .comparison), ("integer", .constant), ("float", .constant),
    ("true", .constant), ("false", .constant), ("none", .constant), ("ellipsis", .constant),
    ("string", .string), ("concatenated_string", .string), ("list", .list),
    ("list_pattern", .list), ("tuple", .tuple), ("tuple_pattern", .tuple),
    ("expression_list", .tuple), ("pattern_list", .tuple), ("set", .set),
    ("dictionary", .dictionary), ("list_comprehension", .comprehension .listComp),
    ("set_comprehension", .comprehension .setComp),
    ("dictionary_comprehension", .comprehension .dictComp),
    ("generator_expression", .comprehension .generatorExp), ("lambda", .lambda),
    ("conditional_expression", .conditional), ("parenthesized_expression", .wrapper),
    ("type", .wrapper), ("generic_type", .genericType), ("union_type", .unionType),
    ("member_type", .memberType), ("splat_type", .splatType), ("await", .await),
    ("yield", .yield), ("named_expression", .assignment), ("list_splat", .splat),
    ("list_splat_pattern", .splat), ("parenthesized_list_splat", .splat)]

def ExpressionForm.ofKind? (kind : String) : Option ExpressionForm := kinds.lookup kind

namespace Scope

variable {m : Type → Type} [Monad m] [MonadExcept ParseError m]

def binary (scope : Scope m) (t : Tree) : m Node := do
  let token ← scope.required t "operator"
  match Operator.binary? token.kind with
  | none => scope.unsupported token
  | some operator =>
      let left ← scope.expressionIn .load t "left"
      let right ← scope.expressionIn .load t "right"
      return .of .binOp [left, .op operator, right]

def unary (scope : Scope m) (t : Tree) : m Node := do
  let token ← scope.required t "operator"
  match Operator.unary? token.kind with
  | none => scope.unsupported token
  | some operator => return .of .unaryOp [.op operator, ← scope.expressionIn .load t "argument"]

/-- A left operand continues a chain: it applies the operator with the same token. -/
def continuesChain (token : String) (left : Tree) : Bool :=
  left.kind == "boolean_operator" &&
    match left.field? "operator" with
    | some operator => operator.kind == token
    | none => false

/-- The operands of a chain of one boolean operator, from left to right; the chain goes down its
left operands, each of which is one level further in. -/
def chainOperands (scope : Scope m) (token : String) (t : Tree) : m (List Node) := do
  let left ← scope.required t "left"
  let front ←
    if continuesChain token left then scope.operands token left
    else List.singleton <$> scope.expression .load left
  let right ← scope.expressionIn .load t "right"
  return front ++ [right]

def boolean (scope : Scope m) (t : Tree) : m Node := do
  let token ← scope.required t "operator"
  match Operator.boolean? token.kind with
  | none => scope.unsupported t
  | some operator => return .of .boolOp (.op operator :: (← scope.chainOperands token.kind t))

/-- The comparison whose tokens stand before an operand; before the first operand there is none. -/
def comparisonBefore (scope : Scope m) (t : Tree) : List String → m (List Node)
  | [] => return []
  | tokens =>
      let joined := " ".intercalate tokens
      if joined = "<>" then throw (scope.faultAt (.legacy joined) t)
      else
        match Operator.comparison? joined with
        | some operator => return [.op operator]
        | none => scope.unsupported t

/-- The operands and comparisons of a chain; `pending` holds the tokens since the last operand. -/
def comparisonParts (scope : Scope m) (t : Tree) : List String → List Tree → m (List Node)
  | _, [] => return []
  | pending, c :: cs =>
      if c.info.named then do
        let operator ← scope.comparisonBefore t pending
        let operand ← scope.expression .load c
        return operator ++ operand :: (← comparisonParts scope t [] cs)
      else comparisonParts scope t (pending ++ [c.kind]) cs

def argument (scope : Scope m) (t : Tree) : m Node := do
  match t.kind with
  | "keyword_argument" =>
      let name ← scope.text (← scope.required t "name")
      return .of (.keyword (some name)) [← scope.expressionIn .load t "value"]
  | "dictionary_splat" =>
      return .of (.keyword none) [← scope.expression .load (← scope.firstNamed t)]
  | _ => scope.expression .load t

def arguments (scope : Scope m) (t : Tree) : m (List Node) := t.named.mapM scope.argument

/-- A call; a generator may stand in place of the list of arguments. -/
def call (scope : Scope m) (t : Tree) : m Node := do
  let function ← scope.expressionIn .load t "function"
  let list ← scope.required t "arguments"
  let arguments ←
    if list.kind = "generator_expression" then List.singleton <$> scope.expression .load list
    else scope.arguments list
  return .of .call (function :: arguments)

def dictionaryEntry (scope : Scope m) (t : Tree) : m (List Node) := do
  match t.kind with
  | "pair" =>
      let key ← scope.expressionIn .load t "key"
      let value ← scope.expressionIn .load t "value"
      return [key, value]
  | "dictionary_splat" => return [← scope.expression .load (← scope.firstNamed t)]
  | _ => scope.unsupported t

def comprehensionBody (scope : Scope m) (t : Tree) : m (List Node) := do
  if t.kind = "pair" then
    let key ← scope.expressionIn .load t "key"
    let value ← scope.expressionIn .load t "value"
    return [key, value]
  else return [← scope.expression .load t]

/-- The clauses of a comprehension, grouped by loop.  `current` holds the loop that is open, with
the conditions so far; a condition needs an open loop. -/
def comprehensionClauses (scope : Scope m) : Option (List Node) → List Tree → m (List Node)
  | current, [] => return closed current
  | current, c :: cs => do
      match c.kind with
      | "for_in_clause" =>
          let target ← scope.expressionIn .store c "left"
          let iterable ← scope.oneOrTuple .load (c.fields "right")
          return closed current ++ (← comprehensionClauses scope (some [target, iterable]) cs)
      | "if_clause" =>
          let condition ← scope.expression .load (← scope.firstNamed c)
          match current with
          | some parts => comprehensionClauses scope (some (parts ++ [condition])) cs
          | none => scope.unsupported c
      | _ => scope.unsupported c
where
  /-- The node of a loop that is complete. -/
  closed : Option (List Node) → List Node
    | some parts => [.of .comprehension parts]
    | none => []

def comprehension (scope : Scope m) (kind : Kind) (t : Tree) : m Node := do
  let body ← scope.comprehensionBody (← scope.required t "body")
  return .of kind (body ++ (← scope.comprehensionClauses none (t.namedBeside "body")))

def parameterName (scope : Scope m) (t : Tree) : m String := do
  match t.kind with
  | "identifier" => scope.text t
  | "list_splat_pattern" | "dictionary_splat_pattern" => scope.text (← scope.firstNamed t)
  | _ => scope.unsupported t

def parameter (scope : Scope m) (t : Tree) : m (List Node) := do
  match t.kind with
  | "identifier" | "list_splat_pattern" | "dictionary_splat_pattern" =>
      return [.leaf (.arg (← scope.parameterName t))]
  | "typed_parameter" =>
      let hint ← scope.expressionIn .load t "type"
      let name ← scope.parameterName (← scope.firstNamed t)
      return [.of (.arg name) [hint]]
  | "default_parameter" =>
      let name ← scope.parameterName (← scope.required t "name")
      let value ← scope.expressionIn .load t "value"
      return [.leaf (.arg name), value]
  | "typed_default_parameter" =>
      let hint ← scope.expressionIn .load t "type"
      let name ← scope.parameterName (← scope.required t "name")
      let value ← scope.expressionIn .load t "value"
      return [.of (.arg name) [hint], value]
  | "keyword_separator" | "positional_separator" => return []
  | _ => scope.unsupported t

def parameters (scope : Scope m) (list : Option Tree) : m Node := do
  match list with
  | some list => return .of .arguments (← list.named.mapM scope.parameter).flatten
  | none => return .leaf .arguments

def typeArguments (t : Tree) : List Tree :=
  (t.named.filter fun (c : Tree) => c.kind == "type_parameter").flatMap Tree.named

/-- A generic type is a subscript of its name. -/
def genericType (scope : Scope m) (context : ExprContext) (t : Tree) : m Node := do
  if (typeArguments t).isEmpty then scope.unsupported t
  else
    let value ← scope.expression .load (← scope.firstNamed t)
    let index ← scope.oneOrTuple .load (typeArguments t)
    return .of .subscript [value, index, .ctx context]

/-- A `yield`, of nothing, of a value or of all values of another generator. -/
def yield (scope : Scope m) (t : Tree) : m Node := do
  if t.hasToken "from" then
    return .of .yieldFrom [← scope.expression .load (← scope.firstNamed t)]
  else
    match t.named with
    | [] => return .leaf .yield
    | value :: _ => return .of .yield [← scope.expression .load value]

def expressionOf (scope : Scope m) (context : ExprContext) (t : Tree) : ExpressionForm → m Node
  | .name => scope.name context t
  | .attribute => do
      let attr ← scope.text (← scope.required t "attribute")
      return .of (.attribute attr) [← scope.expressionIn .load t "object", .ctx context]
  | .subscript => do
      let value ← scope.expressionIn .load t "value"
      let index ← scope.oneOrTuple .load (t.fields "subscript")
      return .of .subscript [value, index, .ctx context]
  | .slice => do return .of .slice (← scope.expressions .load t.named)
  | .call => scope.call t
  | .binary => scope.binary t
  | .unary => scope.unary t
  | .negation => do
      return .of .unaryOp [.op .not, ← scope.expressionIn .load t "argument"]
  | .boolean => scope.boolean t
  | .comparison => do return .of .compare (← scope.comparisonParts t [] t.tokens)
  | .constant => return .leaf .constant
  | .string => scope.string t
  | .list => do return display .list (← scope.expressions context t.named) context
  | .tuple => do return display .tuple (← scope.expressions context t.named) context
  | .set => do return .of .setDisplay (← scope.expressions .load t.named)
  | .dictionary => do return .of .dict (← t.named.mapM scope.dictionaryEntry).flatten
  | .comprehension kind => scope.comprehension kind t
  | .lambda => do
      let parameters ← scope.parameters (t.field? "parameters")
      return .of .lambda [parameters, ← scope.expressionIn .load t "body"]
  | .conditional => do return .of .ifExp (← scope.expressions .load t.named)
  | .wrapper => do scope.expression context (← scope.firstNamed t)
  | .genericType => scope.genericType context t
  | .unionType =>
      match t.named with
      | [left, right] => do
          let left ← scope.expression .load left
          let right ← scope.expression .load right
          return .of .binOp [left, .op .bitOr, right]
      | _ => scope.unsupported t
  | .memberType =>
      match t.named with
      | [value, attr] => do
          let attr ← scope.text attr
          return .of (.attribute attr) [← scope.expression .load value, .ctx context]
      | _ => scope.unsupported t
  | .splatType =>
      if t.hasToken "**" then scope.unsupported t
      else do
        return .of .starred [← scope.expression .load (← scope.firstNamed t), .ctx context]
  | .await => do return .of .await [← scope.expression .load (← scope.firstNamed t)]
  | .yield => scope.yield t
  | .assignment => do
      let target ← scope.expressionIn .store t "name"
      return .of .namedExpr [target, ← scope.expressionIn .load t "value"]
  | .splat => do
      return .of .starred [← scope.expression context (← scope.firstNamed t), .ctx context]

def expressionNode (scope : Scope m) (context : ExprContext) (t : Tree) : m Node :=
  match ExpressionForm.ofKind? t.kind with
  | some form => scope.expressionOf context t form
  | none => scope.unsupported t

end Scope

end RenderGate
