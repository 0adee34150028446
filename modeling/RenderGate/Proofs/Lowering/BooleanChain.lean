import RenderGate.Proofs.Lowering.Slots

/-!
# Chains of a boolean operator

A chain of one boolean operator leans to the left.  Its spine are the nodes that are reached from
it through left operands for as long as the operator stays the same; below the spine lies the
leftmost operand.  The chain gives one operation on the leftmost operand and on the right operands
of the spine, from the innermost to the outermost, and each operand gives one child, also if it is a
chain itself.  Every node of the spine takes one level of nesting.
-/

namespace RenderGate

open Concrete (Source Tree)
open Scope (continuesChain)

namespace Concrete.Tree

section spine

variable {token : String} {t left : Tree}

end spine

end Concrete.Tree

namespace Scope

section chainOperands

variable {S : Scope Lowered} {token : String} {t left : Tree}

end chainOperands

end Scope

theorem Gives.boolean {source : Source} {depth : ℕ} {context : ExprContext} {t : Tree} {n : Node}
    (h : Gives source depth (.expression context) t n) (hkind : t.kind = "boolean_operator") :
    (Scope.withLevels source (nestingLimit - (depth + 1))).boolean t = .ok n := by
  have hform : ExpressionForm.ofKind? t.kind = some .boolean := by
    rw [hkind]
    decide
  exact h.expressionOf hform

namespace Concrete

end Concrete

end RenderGate
