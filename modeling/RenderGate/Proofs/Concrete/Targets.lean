import RenderGate.Lowering.Expression
import RenderGate.Proofs.Subtrees

/-!
# Targets in concrete trees

What is assigned to or deleted stands in certain roles of a statement, a clause or a named
expression.  Lists, tuples, stars and parentheses in such a place hand it on to what they hold.
-/

namespace RenderGate.Concrete.Tree

def elements (t : Tree) : List Tree :=
  match ExpressionForm.ofKind? t.kind with
  | some .list | some .tuple => t.named
  | some .wrapper | some .splat => t.named.head?.toList
  | _ => []

/-- An expression shares the place of another one. -/
inductive Shares : Tree → Tree → Prop
  | self (t : Tree) : Shares t t
  | element {t c u : Tree} (hc : c ∈ t.elements) (h : Shares c u) : Shares t u

/-- No type splat shares the place of an expression. -/
def TypeFree (t : Tree) : Prop := ∀ u, t.Shares u → u.kind ≠ "splat_type"

def asTarget (t : Tree) : List Tree :=
  match t.named with
  | [_, target] =>
      if target.kind = "as_pattern_target" then target.named.head?.toList else [target]
  | _ => []

def withTarget (t : Tree) : List Tree :=
  match t.field? "value" with
  | some value => if value.kind = "as_pattern" then value.asTarget else []
  | none => []

/-- The name that stands to the left in a type alias, without its type parameters. -/
def aliasName (t : Tree) : List Tree :=
  match t.kind with
  | "generic_type" => t.named.head?.toList
  | "subscript" => (t.field? "value").toList
  | _ => [t]

def targets (t : Tree) : List Tree :=
  match t.kind with
  | "assignment" | "augmented_assignment" | "for_statement" | "for_in_clause" =>
      (t.field? "left").toList
  | "named_expression" => (t.field? "name").toList
  | "delete_statement" => t.named
  | "with_clause" => t.named.flatMap withTarget
  | "type_alias_statement" =>
      (t.field? "left").toList.flatMap fun (left : Tree) =>
        if left.kind = "type" then left.named.head?.toList.flatMap aliasName else left.aliasName
  | _ => []

/-- No target in a tree holds a type splat. -/
def PlainTargets (t : Tree) : Prop := ∀ u ∈ t.subtrees, ∀ c ∈ targets u, c.TypeFree

variable {t c : Tree}

theorem TypeFree.kind_ne (h : t.TypeFree) : t.kind ≠ "splat_type" := h t (.self t)

theorem TypeFree.element (h : t.TypeFree) (hc : c ∈ t.elements) : c.TypeFree :=
  fun u hu => h u (.element hc hu)

theorem typeFree_of_elements_eq_nil (h : t.elements = []) (hk : t.kind ≠ "splat_type") :
    t.TypeFree := by
  intro u hu
  cases hu with
  | self => exact hk
  | element hc _ => exact absurd hc (h ▸ List.not_mem_nil)

theorem mem_targets_of_left
    (hk : t.kind ∈ ["assignment", "augmented_assignment", "for_statement", "for_in_clause"])
    (hc : t.field? "left" = some c) : c ∈ t.targets := by
  have hleft : c ∈ (t.field? "left").toList := Option.mem_toList.mpr hc
  simp only [List.mem_cons, List.not_mem_nil, or_false] at hk
  unfold targets
  rcases hk with hk | hk | hk | hk <;> rw [hk] <;> exact hleft

theorem mem_targets_of_name (hk : t.kind = "named_expression") (hc : t.field? "name" = some c) :
    c ∈ t.targets := by
  unfold targets
  rw [hk]
  exact Option.mem_toList.mpr hc

theorem mem_targets_of_delete (hk : t.kind = "delete_statement") (hc : c ∈ t.named) :
    c ∈ t.targets := by
  unfold targets
  rw [hk]
  exact hc

theorem mem_targets_of_with (hk : t.kind = "with_clause") {item : Tree} (hitem : item ∈ t.named)
    (hc : c ∈ item.withTarget) : c ∈ t.targets := by
  unfold targets
  rw [hk]
  exact List.mem_flatMap.mpr ⟨item, hitem, hc⟩

theorem targets_of_alias (hk : t.kind = "type_alias_statement") {left : Tree}
    (hleft : t.field? "left" = some left) : t.targets =
      if left.kind = "type" then left.named.head?.toList.flatMap aliasName else left.aliasName := by
  unfold targets
  rw [hk, hleft]
  exact List.append_nil _

end RenderGate.Concrete.Tree
