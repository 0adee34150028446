import RenderGate.Lowering.Statement
import RenderGate.Concrete.FirstFault

/-!
# Modules and nesting

Each statement, expression and pattern is entered one level further in, and so is each step down the
left operands of a boolean chain.  A counter holds the number of levels that are open; where it
would exceed the limit the text is refused.
-/

namespace RenderGate

open Concrete (Source Tree)

/-- How deep statements, expressions and patterns may be nested. -/
def nestingLimit : Nat := 256

/-- A lowering with the counter of open levels, which outlives an error. -/
abbrev Counted := ExceptT ParseError (StateM Nat)

variable {m : Type → Type} [Monad m] [MonadExcept ParseError m]

def tooDeep {α : Type} (source : Source) (t : Tree) : m α :=
  throw (.fault (.tooDeep nestingLimit) (source.startOf t))

/-- A node is entered: the counter is raised while it is lowered, and set back whatever comes of
it. -/
def nested [MonadStateOf Nat m] {α : Type} (source : Source) (t : Tree) (lower : m α) : m α := do
  let depth := (← get) + 1
  if nestingLimit < depth then tooDeep source t
  else
    set depth
    let lowered ← observing lower
    set (depth - 1)
    MonadExcept.ofExcept lowered

namespace Scope

def exhausted (source : Source) : Scope m where
  source := source
  statement := tooDeep source
  expression _ := tooDeep source
  pattern := tooDeep source
  operands _ := tooDeep source

/-- The lowering one level further out, where nodes are entered in the given way. -/
def entered (enter : {α : Type} → Tree → m α → m α) (scope : Scope m) : Scope m where
  source := scope.source
  statement t := enter t (scope.statementNode t)
  expression context t := enter t (scope.expressionNode context t)
  pattern t := enter t (scope.patternNode t)
  operands token t := enter t (scope.chainOperands token t)

def levels (enter : {α : Type} → Tree → m α → m α) (source : Source) : Nat → Scope m
  | 0 => exhausted source
  | n + 1 => (levels enter source n).entered enter

/-- The lowering that counts.  The last level is never reached, because the counter does not exceed
its limit. -/
def counted (source : Source) : Scope Counted := levels (nested source) source (nestingLimit + 1)

end Scope

def lowerModule (source : Source) (root : Tree) : Lowered Node := do
  return .of .module (← (((Scope.counted source).statements root).run.run 0).1)

def parseTree (text : String) (root : Tree) : Lowered Node :=
  let source := Source.ofText text
  if root.info.faulty then .error (source.faultError root) else lowerModule source root

end RenderGate
