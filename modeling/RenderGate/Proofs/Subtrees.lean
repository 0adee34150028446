import RenderGate.Rose

/-!
# Subtrees

The subtrees of a tree are the tree itself and the subtrees of its children.  A property of all
subtrees thus passes down to the children, and it is shown for a node from its children.
-/

namespace RenderGate.Rose

variable {α : Type}

mutual

/-- The tree and everything below it, in pre-order. -/
def subtrees : Rose α → List (Rose α)
  | .node x cs => .node x cs :: forestSubtrees cs

def forestSubtrees : List (Rose α) → List (Rose α)
  | [] => []
  | c :: cs => c.subtrees ++ forestSubtrees cs

end

theorem mem_forestSubtrees {u : Rose α} {cs : List (Rose α)} :
    u ∈ forestSubtrees cs ↔ ∃ c ∈ cs, u ∈ c.subtrees := by
  induction cs with
  | nil => simp [forestSubtrees]
  | cons c cs ih => simp [forestSubtrees, ih]

theorem forall_mem_subtrees {p : Rose α → Prop} {t : Rose α} :
    (∀ u ∈ t.subtrees, p u) ↔ p t ∧ ∀ c ∈ t.children, ∀ u ∈ c.subtrees, p u := by
  cases t with
  | node x cs =>
      rw [subtrees, List.forall_mem_cons, children_node]
      refine and_congr_right fun _ => ⟨fun h c hc u hu => ?_, fun h u hu => ?_⟩
      · exact h u (mem_forestSubtrees.mpr ⟨c, hc, hu⟩)
      · obtain ⟨c, hc, hu⟩ := mem_forestSubtrees.mp hu
        exact h c hc u hu

theorem size_pos (t : Rose α) : 0 < t.size := by
  cases t
  rw [size]
  omega

theorem length_children_lt_size (t : Rose α) : t.children.length < t.size := by
  obtain ⟨x, cs⟩ := t
  rw [size, children_node]
  induction cs with
  | nil => exact Nat.one_pos
  | cons c cs ih =>
      have := c.size_pos
      rw [List.length_cons, forestSize]
      omega

theorem size_le_of_mem_subtrees {t : Rose α} : ∀ u ∈ t.subtrees, u.size ≤ t.size := by
  induction t using induction_children with
  | node x cs ih =>
      refine forall_mem_subtrees.mpr ⟨Nat.le_refl _, fun c hc u hu => ?_⟩
      have := size_lt_of_mem_children (t := .node x cs) hc
      have := ih c hc u hu
      omega

end RenderGate.Rose
