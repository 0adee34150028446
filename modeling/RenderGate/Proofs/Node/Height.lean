import RenderGate.Node.Basic
import Mathlib.Data.Nat.Notation

/-!
# The height of a tree

A tree is one level higher than the highest of its children.  So its height is the depth of its
deepest node.
-/

namespace RenderGate

namespace Rose

variable {α : Type}

mutual

def height : Rose α → ℕ
  | .node _ cs => forestHeight cs

def forestHeight : List (Rose α) → ℕ
  | [] => 0
  | c :: cs => max (c.height + 1) (forestHeight cs)

end

theorem forestHeight_le_iff {cs : List (Rose α)} {b : ℕ} :
    forestHeight cs ≤ b ↔ ∀ c ∈ cs, c.height < b := by
  induction cs with
  | nil => simp [forestHeight]
  | cons c cs ih => rw [forestHeight, Nat.max_le, ih, List.forall_mem_cons, Nat.succ_le_iff]

theorem height_eq_zero_iff {t : Rose α} : t.height = 0 ↔ t.children = [] := by
  cases t with
  | node x cs =>
      cases cs with
      | nil => exact iff_of_true rfl rfl
      | cons c cs =>
          refine iff_of_false (fun h => ?_) (List.cons_ne_nil c cs)
          exact Nat.not_lt_zero _ (forestHeight_le_iff.mp (Nat.le_of_eq h) c List.mem_cons_self)

mutual

theorem map_fst_rowsFrom_succ (d : Nat) (t : Rose α) :
    (t.rowsFrom (d + 1)).map Prod.fst = ((t.rowsFrom d).map Prod.fst).map (· + 1) :=
  match t with
  | .node x cs => by
      rw [rowsFrom, rowsFrom, List.map_cons, List.map_cons, List.map_cons,
        map_fst_forestRows_succ (d + 1) cs]

theorem map_fst_forestRows_succ (d : Nat) (cs : List (Rose α)) :
    (forestRows (d + 1) cs).map Prod.fst = ((forestRows d cs).map Prod.fst).map (· + 1) :=
  match cs with
  | [] => rfl
  | c :: cs => by
      rw [forestRows, forestRows, List.map_append, List.map_append, List.map_append,
        map_fst_rowsFrom_succ d c, map_fst_forestRows_succ d cs]

end

/-- The depths in a tree are 0 and those in the children, one greater. -/
theorem forall_mem_depths_node {p : Nat → Prop} {x : α} {cs : List (Rose α)} :
    (∀ d ∈ (Rose.node x cs).rows.map Prod.fst, p d) ↔
      p 0 ∧ ∀ c ∈ cs, ∀ d ∈ c.rows.map Prod.fst, p (d + 1) := by
  rw [rows, rowsFrom, List.map_cons, List.forall_mem_cons]
  refine and_congr_right fun _ => ?_
  induction cs with
  | nil => simp [forestRows]
  | cons c cs ih =>
      rw [forestRows, List.map_append, List.forall_mem_append, ih, List.forall_mem_cons,
        map_fst_rowsFrom_succ, List.forall_mem_map]
      rfl

theorem height_lt_iff {t : Rose α} {b : ℕ} : t.height < b ↔ ∀ d ∈ t.rows.map Prod.fst, d < b := by
  induction t using induction_children generalizing b with
  | node x cs ih =>
      cases b with
      | zero =>
          exact iff_of_false (Nat.not_lt_zero _) fun h => Nat.not_lt_zero 0 (h 0 List.mem_cons_self)
      | succ b =>
          rw [forall_mem_depths_node, and_iff_right (Nat.succ_pos b), Nat.lt_succ_iff, height,
            forestHeight_le_iff]
          simp only [Nat.succ_lt_succ_iff]
          exact forall₂_congr fun c hc => ih c hc

theorem height_le_iff {t : Rose α} {b : ℕ} : t.height ≤ b ↔ ∀ d ∈ t.rows.map Prod.fst, d ≤ b := by
  simp only [← Nat.lt_succ_iff]
  exact height_lt_iff

mutual

theorem height_lt_size (t : Rose α) : t.height < t.size :=
  match t with
  | .node x cs => by
      have := forestHeight_le_forestSize cs
      rw [height, size]
      omega

theorem forestHeight_le_forestSize (cs : List (Rose α)) : forestHeight cs ≤ forestSize cs :=
  match cs with
  | [] => Nat.le_refl 0
  | c :: cs => by
      have := height_lt_size c
      have := forestHeight_le_forestSize cs
      rw [forestHeight, forestSize]
      omega

end

end Rose

namespace Node

theorem height_of_le_iff {kind : Kind} {children : List Node} {b : Nat} :
    (of kind children).height ≤ b ↔ ∀ c ∈ children, c.height < b := Rose.forestHeight_le_iff

/-- A child is lower than its parent. -/
theorem height_lt_of_mem (kind : Kind) {children : List Node} {c : Node} (hc : c ∈ children) :
    c.height < (of kind children).height :=
  height_of_le_iff.mp (Nat.le_refl _) c hc

end Node

end RenderGate
