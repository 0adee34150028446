import RenderGate.Lowering.Pattern

/-!
# Statements

The lowering of one statement, given the lowering one level further in.  The children of a node
stand in the order of the source, blocks included, so a clause is told from the next only by what
its own nodes hold.
-/

namespace RenderGate

open Concrete (Tree)

inductive StatementForm where
  | expression
  /-- A statement that consists of expressions. -/
  | values (kind : Kind)
  /-- A statement of which nothing but its kind is kept. -/
  | bare (kind : Kind)
  | delete
  | importNames
  | importFrom
  | ifElse
  | forLoop
  | whileLoop
  | tryBlock
  | withBlock
  | function
  | classDef
  | decorated
  | matchCases
  | typeAlias
  /-- A statement that only Python 2 had. -/
  | legacy (construct : String)
deriving DecidableEq

def StatementForm.kinds : List (String × StatementForm) :=
  [("expression_statement", .expression), ("return_statement", .values .returnValue),
    ("pass_statement", .bare .pass), ("break_statement", .bare .breakLoop),
    ("continue_statement", .bare .continueLoop), ("delete_statement", .delete),
    ("raise_statement", .values .raise), ("assert_statement", .values .assertion),
    ("global_statement", .bare .globalNames), ("nonlocal_statement", .bare .nonlocalNames),
    ("import_statement", .importNames), ("import_from_statement", .importFrom),
    ("future_import_statement", .importFrom), ("if_statement", .ifElse),
    ("for_statement", .forLoop), ("while_statement", .whileLoop), ("try_statement", .tryBlock),
    ("with_statement", .withBlock), ("function_definition", .function),
    ("class_definition", .classDef), ("decorated_definition", .decorated),
    ("match_statement", .matchCases), ("type_alias_statement", .typeAlias),
    ("print_statement", .legacy "print"), ("exec_statement", .legacy "exec")]

def StatementForm.ofKind? (kind : String) : Option StatementForm := kinds.lookup kind

namespace Scope

variable {m : Type → Type} [Monad m] [MonadExcept ParseError m]

/-- The targets and the value to the right of an assignment; a value may be an assignment again,
whose targets then belong to the same statement. -/
def assigned (scope : Scope m) (t : Tree) : m (List Node) := do
  if t.kind = "assignment" ∧ (t.field? "type").isNone then
    let target ← scope.expressionIn .store t "left"
    match _ : t.field? "right" with
    | some right => return target :: (← scope.assigned right)
    | none => scope.unsupported t
  else return [← scope.expression .load t]
termination_by t.size
decreasing_by exact Tree.size_lt_of_field? (by assumption)

def assignment (scope : Scope m) (t : Tree) : m Node := do
  let left ← scope.required t "left"
  let target ← scope.expression .store left
  match t.field? "type" with
  | some hint =>
      let hint ← scope.expression .load hint
      match t.field? "right" with
      | some value => return .of .annAssign [target, hint, ← scope.expression .load value]
      | none => return .of .annAssign [target, hint]
  | none =>
      let right ← scope.required t "right"
      return .of .assign (target :: (← scope.assigned right))

def augmentedAssignment (scope : Scope m) (t : Tree) : m Node := do
  let token ← scope.required t "operator"
  match Operator.binary? token.kind with
  | none => scope.unsupported token
  | some operator =>
      let target ← scope.expressionIn .store t "left"
      let value ← scope.expressionIn .load t "right"
      return .of .augAssign [target, .op operator, value]

def expressionStatement (scope : Scope m) (t : Tree) : m Node :=
  match t.named with
  | [] => scope.unsupported t
  | [c] =>
      if c.kind = "assignment" then scope.assignment c
      else if c.kind = "augmented_assignment" then scope.augmentedAssignment c
      else do return .of .expr [← scope.oneOrTuple .load [c]]
  | cs => do return .of .expr [← scope.oneOrTuple .load cs]

def deleted (scope : Scope m) (t : Tree) : m (List Node) := do
  if t.kind = "expression_list" then scope.expressions .del t.named
  else return [← scope.expression .del t]

def importedName (scope : Scope m) (t : Tree) : m Node := do
  let name ← if t.kind = "aliased_import" then scope.required t "name" else pure t
  return .leaf (.alias (← scope.text name))

def importedNames (scope : Scope m) (t : Tree) : m (List Node) :=
  (t.fields "name").mapM scope.importedName

/-- The names that are imported from a module; a star stands for all. -/
def importFrom (scope : Scope m) (t : Tree) : m Node := do
  let names ← scope.importedNames t
  let all := t.named.any fun (c : Tree) => c.kind == "wildcard_import"
  return .of .importFrom (names ++ if all then [.leaf (.alias "*")] else [])

/-- What is done if the conditions before fail, from the clauses that follow.  Clauses are lowered
from the last to the first, and an `elif` holds all that comes after it. -/
def alternatives (scope : Scope m) : List Tree → m (List Node)
  | [] => return []
  | c :: cs => do
      let orelse ← alternatives scope cs
      match c.kind with
      | "else_clause" => scope.suite c "body"
      | "elif_clause" =>
          let condition ← scope.expressionIn .load c "condition"
          let consequence ← scope.suite c "consequence"
          return [.of .ifElse (condition :: consequence ++ orelse)]
      | _ => scope.unsupported c

def ifStatement (scope : Scope m) (t : Tree) : m Node := do
  let orelse ← scope.alternatives (t.fields "alternative")
  let condition ← scope.expressionIn .load t "condition"
  let consequence ← scope.suite t "consequence"
  return .of .ifElse (condition :: consequence ++ orelse)

def elseSuite (scope : Scope m) (t : Tree) : m (List Node) :=
  match t.field? "alternative" with
  | some alternative => scope.suite alternative "body"
  | none => return []

/-- One of two kinds, of which the second is for statements marked as asynchronous. -/
def syncOrAsync (t : Tree) (sync async : Kind) : Kind := if t.hasToken "async" then async else sync

def forStatement (scope : Scope m) (t : Tree) : m Node := do
  let target ← scope.expressionIn .store t "left"
  let iterable ← scope.expressionIn .load t "right"
  let body ← scope.suite t "body"
  let orelse ← scope.elseSuite t
  return .of (syncOrAsync t .forLoop .asyncFor) (target :: iterable :: body ++ orelse)

def whileStatement (scope : Scope m) (t : Tree) : m Node := do
  let condition ← scope.expressionIn .load t "condition"
  let body ← scope.suite t "body"
  let orelse ← scope.elseSuite t
  return .of .whileLoop (condition :: body ++ orelse)

def asParts (scope : Scope m) (t : Tree) : m (Tree × Tree) := do
  match t.named with
  | [value, target] =>
      if target.kind = "as_pattern_target" then return (value, ← scope.firstNamed target)
      else return (value, target)
  | _ => scope.unsupported t

/-- The exceptions that a handler catches and the name that it gives them. -/
def caught (scope : Scope m) (t : Tree) : List Tree → m (List Node × Option String)
  | [] => return ([], none)
  | [c] => do
      if c.kind = "as_pattern" then
        let (value, bound) ← scope.asParts c
        let value ← scope.expression .load value
        return ([value], some (← scope.text bound))
      else return ([← scope.expression .load c], none)
  | [value, bound] => do
      let value ← scope.expression .load value
      return ([value], some (← scope.text bound))
  | _ => scope.unsupported t

def exceptHandler (scope : Scope m) (t : Tree) : m Node := do
  let (value, name) ← scope.caught t (t.named.filter fun (c : Tree) => c.kind != "block")
  let body ← (t.named.filter fun (c : Tree) => c.kind == "block").mapM scope.statements
  return .of (.exceptHandler name) (value ++ body.flatten)

def tryClause (scope : Scope m) (t : Tree) : m (List Node) := do
  match t.kind with
  | "block" => return []
  | "except_clause" | "except_group_clause" => return [← scope.exceptHandler t]
  | "else_clause" => scope.suite t "body"
  | "finally_clause" => return (← t.named.mapM scope.statements).flatten
  | _ => scope.unsupported t

/-- A `try` statement; one handler of groups makes it a statement on groups. -/
def tryStatement (scope : Scope m) (t : Tree) : m Node := do
  let body ← scope.suite t "body"
  let clauses ← t.named.mapM scope.tryClause
  let groups := t.named.any fun (c : Tree) => c.kind == "except_group_clause"
  return .of (if groups then .tryStar else .tryBlock) (body ++ clauses.flatten)

def withItem (scope : Scope m) (t : Tree) : m Node := do
  let value ← scope.required t "value"
  if value.kind = "as_pattern" then
    let (manager, target) ← scope.asParts value
    let manager ← scope.expression .load manager
    return .of .withItem [manager, ← scope.expression .store target]
  else return .of .withItem [← scope.expression .load value]

def withStatement (scope : Scope m) (t : Tree) : m Node := do
  let clauses := t.named.filter fun (c : Tree) => c.kind == "with_clause"
  let items ← (clauses.flatMap Tree.named).mapM scope.withItem
  let body ← scope.suite t "body"
  return .of (syncOrAsync t .withBlock .asyncWith) (items ++ body)

/-- A type parameter: a variable with or without a bound, or one that stands for several. -/
def typeParameter (scope : Scope m) (t : Tree) : m Node := do
  let parameter ← if t.kind = "type" then scope.firstNamed t else pure t
  match parameter.kind with
  | "identifier" => return .leaf .typeVar
  | "constrained_type" =>
      match parameter.named with
      | [_, bound] => return .of .typeVar [← scope.expression .load bound]
      | _ => scope.unsupported parameter
  | "splat_type" =>
      return .leaf (if parameter.hasToken "**" then .paramSpec else .typeVarTuple)
  | _ => scope.unsupported parameter

def typeParameters (scope : Scope m) (t : Tree) : m (List Node) :=
  match t.field? "type_parameters" with
  | some list => list.named.mapM scope.typeParameter
  | none => return []

def functionDefinition (scope : Scope m) (decorators : List Node) (t : Tree) : m Node := do
  let name ← scope.text (← scope.required t "name")
  let typeParameters ← scope.typeParameters t
  let parameters ← scope.parameters (t.field? "parameters")
  let returns ← match t.field? "return_type" with
    | some type => List.singleton <$> scope.expression .load type
    | none => pure []
  let body ← scope.suite t "body"
  return .of (syncOrAsync t (.functionDef name) (.asyncFunctionDef name))
    (decorators ++ typeParameters ++ parameters :: returns ++ body)

def classDefinition (scope : Scope m) (decorators : List Node) (t : Tree) : m Node := do
  let name ← scope.text (← scope.required t "name")
  let typeParameters ← scope.typeParameters t
  let bases ← match t.field? "superclasses" with
    | some list => scope.arguments list
    | none => pure []
  let body ← scope.suite t "body"
  return .of (.classDef name) (decorators ++ typeParameters ++ bases ++ body)

def decorator (scope : Scope m) (t : Tree) : m Node := do
  scope.expression .load (← scope.firstNamed t)

def decorated (scope : Scope m) (t : Tree) : m Node := do
  let decorators ← (t.named.filter fun (c : Tree) => c.kind == "decorator").mapM scope.decorator
  let definition ← scope.required t "definition"
  match definition.kind with
  | "function_definition" => scope.functionDefinition decorators definition
  | "class_definition" => scope.classDefinition decorators definition
  | _ => scope.unsupported definition

def aliasTarget (scope : Scope m) (t : Tree) : m (List Node) := do
  match t.kind with
  | "generic_type" =>
      let name ← scope.expression .store (← scope.firstNamed t)
      let lists := t.named.filter fun (c : Tree) => c.kind == "type_parameter"
      return name :: (← (lists.flatMap Tree.named).mapM scope.typeParameter)
  | "subscript" =>
      let name ← scope.expressionIn .store t "value"
      return name :: (← (t.fields "subscript").mapM scope.typeParameter)
  | _ => return [← scope.expression .store t]

def typeAlias (scope : Scope m) (t : Tree) : m Node := do
  let left ← scope.required t "left"
  let left ← if left.kind = "type" then scope.firstNamed left else pure left
  let target ← scope.aliasTarget left
  return .of .typeAlias (target ++ [← scope.expressionIn .load t "right"])

def statementOf (scope : Scope m) (t : Tree) : StatementForm → m Node
  | .expression => scope.expressionStatement t
  | .values kind => do return .of kind (← scope.expressions .load t.named)
  | .bare kind => return .leaf kind
  | .delete => do return .of .delete (← t.named.mapM scope.deleted).flatten
  | .importNames => do return .of .importNames (← scope.importedNames t)
  | .importFrom => scope.importFrom t
  | .ifElse => scope.ifStatement t
  | .forLoop => scope.forStatement t
  | .whileLoop => scope.whileStatement t
  | .tryBlock => scope.tryStatement t
  | .withBlock => scope.withStatement t
  | .function => scope.functionDefinition [] t
  | .classDef => scope.classDefinition [] t
  | .decorated => scope.decorated t
  | .matchCases => scope.matchStatement t
  | .typeAlias => scope.typeAlias t
  | .legacy construct => throw (scope.faultAt (.legacy construct) t)

def statementNode (scope : Scope m) (t : Tree) : m Node :=
  match StatementForm.ofKind? t.kind with
  | some form => scope.statementOf t form
  | none => scope.unsupported t

end Scope

end RenderGate
