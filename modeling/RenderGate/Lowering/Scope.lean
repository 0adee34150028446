import RenderGate.Node.Basic
import RenderGate.ParseError

/-!
# What a lowering step may call on

Lowering turns a concrete tree into an abstract one.  The functions that lower one node are not
recursive: they are given a `Scope`, which lowers what lies one level further in.  What a lowering
does besides giving a tree or an error is left open, so that it may count how deep it is nested.
-/

namespace RenderGate

open Concrete (Source Tree)

abbrev Lowered (α : Type) := Except ParseError α

/-- The lowering of what lies one level further in, with the text that spans refer to. -/
@[ext]
structure Scope (m : Type → Type) where
  source : Source
  statement : Tree → m Node
  expression : ExprContext → Tree → m Node
  pattern : Tree → m Node
  /-- The operands of a chain of the boolean operator with the given token. -/
  operands : String → Tree → m (List Node)

namespace Scope

variable {m : Type → Type}

def faultAt (scope : Scope m) (fault : Fault) (t : Tree) : ParseError :=
  .fault fault (scope.source.startOf t)

variable [Monad m] [MonadExcept ParseError m]

def unsupported (scope : Scope m) {α : Type} (t : Tree) : m α :=
  throw (scope.faultAt (.unsupported t.kind) t)

/-- The first child in a role, which must be there. -/
def required (scope : Scope m) (t : Tree) (name : String) : m Tree :=
  match t.field? name with
  | some c => return c
  | none => scope.unsupported t

def firstNamed (scope : Scope m) (t : Tree) : m Tree :=
  match t.named with
  | c :: _ => return c
  | [] => scope.unsupported t

def text (scope : Scope m) (t : Tree) : m String :=
  match scope.source.slice? t with
  | some s => return s
  | none => throw (scope.faultAt (.malformed "invalid utf-8") t)

def name (scope : Scope m) (context : ExprContext) (t : Tree) : m Node := do
  return .of (.name (← scope.text t)) [.ctx context]

/-- The elements of a display, closed by its context. -/
def display (kind : Kind) (elements : List Node) (context : ExprContext) : Node :=
  .of kind (elements ++ [.ctx context])

def expressions (scope : Scope m) (context : ExprContext) (ts : List Tree) : m (List Node) :=
  ts.mapM (scope.expression context)

/-- One expression, or a tuple of several that share a place. -/
def oneOrTuple (scope : Scope m) (context : ExprContext) : List Tree → m Node
  | [t] => scope.expression context t
  | ts => do return display .tuple (← scope.expressions context ts) context

def expressionIn (scope : Scope m) (context : ExprContext) (t : Tree) (name : String) :
    m Node := do
  scope.expression context (← scope.required t name)

def statements (scope : Scope m) (parent : Tree) : m (List Node) :=
  parent.named.mapM scope.statement

def suite (scope : Scope m) (t : Tree) (name : String) : m (List Node) := do
  scope.statements (← scope.required t name)

end Scope

end RenderGate
