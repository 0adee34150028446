import RenderGate.Rose.Walk
import Mathlib.Data.List.Perm.Basic

/-!
# What a walk visits

The trees on a stack still lead to all their nodes, each once and at its depth.  A walk to the right
visits them in pre-order, and a walk to the left in another order of the same nodes; so does a walk
over a tree whose children are rearranged.
-/

namespace RenderGate.Rose

variable {α σ : Type}

theorem forestRows_eq_flatMap (d : ℕ) (cs : List (Rose α)) :
    forestRows d cs = cs.flatMap (rowsFrom d) := by
  induction cs with
  | nil => rfl
  | cons c cs ih => rw [forestRows, ih, List.flatMap_cons]

def stackRows (pending : List (ℕ × Rose α)) : List (ℕ × α) :=
  pending.flatMap fun p => p.2.rowsFrom p.1

theorem stackRows_pushed (direction : Direction) (d : ℕ) (cs : List (Rose α))
    (pending : List (ℕ × Rose α)) : stackRows (pushed direction d cs pending) =
      (direction.arrange cs).flatMap (rowsFrom d) ++ stackRows pending := by
  rw [stackRows, pushed, List.flatMap_append, List.flatMap_map]
  rfl

theorem Direction.arrange_perm {β : Type} (direction : Direction) (cs : List β) :
    (direction.arrange cs).Perm cs := by
  cases direction with
  | rightward => exact .refl cs
  | leftward => exact cs.reverse_perm

/-- A walk visits what the stack leads to, and from left to right if it is to the right. -/
theorem exists_perm_walk (direction : Direction) (visit : σ → ℕ → α → σ)
    (pending : List (ℕ × Rose α)) (state : σ) :
    ∃ rows : List (ℕ × α), rows.Perm (stackRows pending) ∧
      (direction = .rightward → rows = stackRows pending) ∧
      walk direction visit pending state = rows.foldl (fun s r => visit s r.1 r.2) state := by
  -- Along the walk: the root on top is visited, and its children are a permutation of what is pushed.
  induction pending, state using walk.induct direction visit with
  | case1 state => exact ⟨[], .refl [], fun _ => rfl, by rw [walk, List.foldl_nil]⟩
  | case2 depth x cs pending state ih =>
      obtain ⟨rows, hperm, hright, hwalk⟩ := ih
      have hstack : stackRows ((depth, .node x cs) :: pending) =
          (depth, x) :: (cs.flatMap (rowsFrom (depth + 1)) ++ stackRows pending) := by
        rw [stackRows, List.flatMap_cons, rowsFrom, forestRows_eq_flatMap]
        rfl
      rw [stackRows_pushed] at hperm hright
      refine ⟨(depth, x) :: rows, ?_, fun h => ?_, by rw [walk, hwalk, List.foldl_cons]⟩
      · rw [hstack]
        exact (hperm.trans (((direction.arrange_perm cs).flatMap_right _).append_right _)).cons _
      · rw [hstack, hright h, h]
        rfl

theorem stackRows_root (t : Rose α) : stackRows [(0, t)] = t.rows := List.append_nil _

theorem walk_rightward (visit : σ → ℕ → α → σ) (t : Rose α) (state : σ) :
    walk .rightward visit [(0, t)] state = t.rows.foldl (fun s r => visit s r.1 r.2) state := by
  obtain ⟨rows, -, hright, hwalk⟩ := exists_perm_walk .rightward visit [(0, t)] state
  rw [hwalk, hright rfl, stackRows_root]

theorem exists_perm_rows_walk (direction : Direction) (visit : σ → ℕ → α → σ) (t : Rose α)
    (state : σ) : ∃ rows : List (ℕ × α), rows.Perm t.rows ∧
      walk direction visit [(0, t)] state = rows.foldl (fun s r => visit s r.1 r.2) state := by
  obtain ⟨rows, hperm, -, hwalk⟩ := exists_perm_walk direction visit [(0, t)] state
  exact ⟨rows, stackRows_root t ▸ hperm, hwalk⟩

/-- The second tree is the first one with the children of any of its nodes in another order. -/
inductive Rearranged : Rose α → Rose α → Prop
  | node (x : α) {cs ds es : List (Rose α)} (below : List.Forall₂ Rearranged cs ds)
      (order : ds.Perm es) : Rearranged (.node x cs) (.node x es)

theorem Rearranged.refl (t : Rose α) : t.Rearranged t := by
  induction t using induction_children with
  | node x cs ih => exact .node x (List.forall₂_same.mpr ih) (.refl cs)

theorem flatMap_perm_of_forall₂ {β γ : Type} {R : β → β → Prop} {f : β → List γ}
    {as bs : List β} (h : List.Forall₂ R as bs) (hf : ∀ a ∈ as, ∀ b, R a b → (f a).Perm (f b)) :
    (as.flatMap f).Perm (bs.flatMap f) := by
  induction h with
  | nil => exact .refl []
  | cons hab _ ih =>
      rw [List.flatMap_cons, List.flatMap_cons]
      exact (hf _ List.mem_cons_self _ hab).append
        (ih fun a ha => hf a (List.mem_cons_of_mem _ ha))

/-- Nodes keep their depths when siblings change their order. -/
theorem Rearranged.rowsFrom_perm {s t : Rose α} (h : s.Rearranged t) (d : ℕ) :
    (s.rowsFrom d).Perm (t.rowsFrom d) := by
  induction s using induction_children generalizing t d with
  | node x cs ih =>
      obtain ⟨_, below, order⟩ := h
      rw [rowsFrom, rowsFrom, forestRows_eq_flatMap, forestRows_eq_flatMap]
      refine .cons _ (.trans ?_ (order.flatMap_right _))
      exact flatMap_perm_of_forall₂ below fun c hc u hu => ih c hc hu (d + 1)

end RenderGate.Rose
