import RenderGate.Lowering.FormattedString
import RenderGate.Proofs.Subtrees

/-!
# Runs in concrete trees

Three constructs of the grammar stand for nested ones without nesting in the concrete tree, or nest
in a way of their own: the alternatives of an `if` stand side by side, and so do the parts of a
dotted name, and a format may hold an interpolation with a format.  `RunsWithin` bounds how long
these runs are anywhere in a tree.
-/

namespace RenderGate.Concrete.Tree

open Scope (formatPieces interpolates)

/-- Formats stand in formats of an interpolation up to a number of times. -/
def FormatsWithin : Nat → Tree → Prop
  | 0, t => t.field? "format_specifier" = none
  | n + 1, t => ∀ spec ∈ t.field? "format_specifier", ∀ piece ∈ formatPieces spec,
      interpolates piece → FormatsWithin n piece

instance decidableFormatsWithin : (n : Nat) → (t : Tree) → Decidable (t.FormatsWithin n)
  | 0, t => inferInstanceAs (Decidable (t.field? "format_specifier" = none))
  | n + 1, t =>
      have := decidableFormatsWithin n
      inferInstanceAs (Decidable (∀ spec ∈ t.field? "format_specifier",
        ∀ piece ∈ formatPieces spec, interpolates piece → FormatsWithin n piece))

/-- The runs that start at a node are no longer than a bound; a format counts twice, for it comes
with the interpolation around it. -/
structure RunWithin (run : Nat) (t : Tree) : Prop where
  alternatives : t.kind = "if_statement" → (t.fields "alternative").length ≤ run
  parts : t.kind = "dotted_name" → t.named.length ≤ run
  formats : t.kind = "interpolation" → t.FormatsWithin ((run - 1) / 2)

instance (run : Nat) (t : Tree) : Decidable (t.RunWithin run) :=
  decidable_of_iff ((t.kind = "if_statement" → (t.fields "alternative").length ≤ run) ∧
      (t.kind = "dotted_name" → t.named.length ≤ run) ∧
      (t.kind = "interpolation" → t.FormatsWithin ((run - 1) / 2)))
    ⟨fun h => ⟨h.1, h.2.1, h.2.2⟩, fun h => ⟨h.alternatives, h.parts, h.formats⟩⟩

/-- No run in a tree is longer than a bound. -/
def RunsWithin (run : Nat) (t : Tree) : Prop := ∀ u ∈ t.subtrees, RunWithin run u

instance (run : Nat) (t : Tree) : Decidable (t.RunsWithin run) :=
  inferInstanceAs (Decidable (∀ u ∈ t.subtrees, RunWithin run u))

theorem formatsWithin_of_size_le {n : Nat} {t : Tree} (h : t.size ≤ n) : t.FormatsWithin n := by
  induction n generalizing t with
  | zero => exact absurd h (Nat.not_le_of_gt t.size_pos)
  | succ n ih =>
      intro spec hspec piece hpiece _
      have hs := size_lt_of_field? hspec
      have hp := size_lt_of_mem_tokens (List.mem_filter.mp hpiece).1
      exact ih (by omega)

/-- Every tree bounds its own runs, and those of a larger tree too. -/
theorem runWithin_of_size_le {n : Nat} {t : Tree} (h : t.size ≤ n) : t.RunWithin (2 * n + 1) := by
  have hlen := t.length_children_lt_size
  refine ⟨fun _ => ?_, fun _ => ?_, fun _ => formatsWithin_of_size_le (by omega)⟩
  · have : (t.fields "alternative").length ≤ t.children.length := List.length_filter_le _ _
    omega
  · have : t.named.length ≤ t.children.length := List.length_filter_le _ _
    omega

theorem runsWithin_size (t : Tree) : t.RunsWithin (2 * t.size + 1) := fun u hu =>
  runWithin_of_size_le (Rose.size_le_of_mem_subtrees u hu)

end RenderGate.Concrete.Tree
