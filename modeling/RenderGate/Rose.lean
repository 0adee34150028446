/-!
# Ordered trees

`Rose α` is the tree with a value at every node and an ordered list of children.  Both the
concrete trees that a grammar yields and the abstract trees of programs have this shape.  A tree is
also written as a list of rows, the depths and values of its nodes in pre-order; `ofRows?_rows`
says that the rows determine the tree.
-/

namespace RenderGate

inductive Rose (α : Type) where
  | node (value : α) (children : List (Rose α))

namespace Rose

variable {α : Type}

def value : Rose α → α
  | .node x _ => x

def children : Rose α → List (Rose α)
  | .node _ cs => cs

def leaf (x : α) : Rose α := .node x []

@[simp] theorem value_node (x : α) (cs : List (Rose α)) : (Rose.node x cs).value = x := rfl

@[simp] theorem children_node (x : α) (cs : List (Rose α)) : (Rose.node x cs).children = cs := rfl

/-- A property holds of every tree if it passes from the children of a node to the node. -/
@[elab_as_elim]
theorem induction_children {motive : Rose α → Prop}
    (node : ∀ x cs, (∀ c ∈ cs, motive c) → motive (.node x cs)) : ∀ t, motive t
  | .node x cs => node x cs fun c _ => induction_children node c

mutual

def size : Rose α → Nat
  | .node _ cs => 1 + forestSize cs

def forestSize : List (Rose α) → Nat
  | [] => 0
  | c :: cs => c.size + forestSize cs

end

theorem size_le_forestSize {c : Rose α} {cs : List (Rose α)} (h : c ∈ cs) :
    c.size ≤ forestSize cs := by
  induction cs with
  | nil => simp at h
  | cons d ds ih =>
      simp only [forestSize]
      rcases List.mem_cons.mp h with rfl | h
      · omega
      · have := ih h
        omega

theorem size_lt_of_mem_children {c t : Rose α} (h : c ∈ t.children) : c.size < t.size := by
  cases t with
  | node x cs =>
      have := size_le_forestSize (show c ∈ cs from h)
      simp only [size]
      omega

mutual

def decideEq [DecidableEq α] : (s t : Rose α) → Decidable (s = t)
  | .node x cs, .node y ds =>
      match decEq x y, forestDecideEq cs ds with
      | isTrue hx, isTrue hc => isTrue (by rw [hx, hc])
      | isFalse hx, _ => isFalse fun h => hx (by injection h)
      | _, isFalse hc => isFalse fun h => hc (by injection h)

def forestDecideEq [DecidableEq α] : (cs ds : List (Rose α)) → Decidable (cs = ds)
  | [], [] => isTrue rfl
  | [], _ :: _ => isFalse (by simp)
  | _ :: _, [] => isFalse (by simp)
  | c :: cs, d :: ds =>
      match c.decideEq d, forestDecideEq cs ds with
      | isTrue hc, isTrue hs => isTrue (by rw [hc, hs])
      | isFalse hc, _ => isFalse fun h => hc (by injection h)
      | _, isFalse hs => isFalse fun h => hs (by injection h)

end

instance [DecidableEq α] : DecidableEq (Rose α) := Rose.decideEq

mutual

def rowsFrom (depth : Nat) : Rose α → List (Nat × α)
  | .node x cs => (depth, x) :: forestRows (depth + 1) cs

def forestRows (depth : Nat) : List (Rose α) → List (Nat × α)
  | [] => []
  | c :: cs => rowsFrom depth c ++ forestRows depth cs

end

/-- The nodes in pre-order, each with its depth; the root has depth 0. -/
def rows (t : Rose α) : List (Nat × α) := t.rowsFrom 0

def values (t : Rose α) : List α := t.rows.map Prod.snd

mutual

theorem map_snd_rowsFrom (d e : Nat) (t : Rose α) :
    (t.rowsFrom d).map Prod.snd = (t.rowsFrom e).map Prod.snd :=
  match t with
  | .node x cs => by simp [rowsFrom, map_snd_forestRows (d + 1) (e + 1) cs]

theorem map_snd_forestRows (d e : Nat) (cs : List (Rose α)) :
    (forestRows d cs).map Prod.snd = (forestRows e cs).map Prod.snd :=
  match cs with
  | [] => rfl
  | c :: cs => by simp [forestRows, map_snd_rowsFrom d e c, map_snd_forestRows d e cs]

end

theorem map_snd_forestRows_eq_flatMap (d : Nat) (cs : List (Rose α)) :
    (forestRows d cs).map Prod.snd = cs.flatMap values := by
  induction cs with
  | nil => rfl
  | cons c cs ih => simp [forestRows, values, rows, ih, map_snd_rowsFrom d 0 c]

/-- A node comes before what lies below it, and that from left to right. -/
theorem values_node (x : α) (cs : List (Rose α)) :
    (Rose.node x cs).values = x :: cs.flatMap values := by
  simp [values, rows, rowsFrom, map_snd_forestRows_eq_flatMap]

mutual

/-- Every node has one value. -/
theorem length_values (t : Rose α) : t.values.length = t.size :=
  match t with
  | .node x cs => by simp [values_node, size, length_flatMap_values cs, Nat.add_comm]

theorem length_flatMap_values (cs : List (Rose α)) :
    (cs.flatMap values).length = forestSize cs :=
  match cs with
  | [] => rfl
  | c :: cs => by simp [forestSize, length_values c, length_flatMap_values cs]

end

/-- Puts a row in front of the trees read so far: those that lie deeper become its children. -/
def adopt (row : Nat × α) (pending : List (Nat × Rose α)) : List (Nat × Rose α) :=
  (row.1, .node row.2 ((pending.takeWhile fun p => decide (row.1 < p.1)).map Prod.snd)) ::
    pending.dropWhile fun p => decide (row.1 < p.1)

/-- The tree that a list of rows describes, if it describes exactly one. -/
def ofRows? (rows : List (Nat × α)) : Option (Rose α) :=
  match rows.foldr adopt [] with
  | [(0, t)] => some t
  | _ => none

/-- Trees that await a parent at the given depth or above it. -/
def Shallow (depth : Nat) (pending : List (Nat × Rose α)) : Prop := ∀ p ∈ pending, p.1 ≤ depth

theorem takeWhile_append_shallow {depth : Nat} {pending : List (Nat × Rose α)}
    (h : Shallow depth pending) (cs : List (Rose α)) :
    ((cs.map fun c => (depth + 1, c)) ++ pending).takeWhile (fun p => decide (depth < p.1)) =
      cs.map fun c => (depth + 1, c) := by
  rw [List.takeWhile_append_of_pos (by simp)]
  cases pending with
  | nil => simp
  | cons p ps =>
      have := h p (by simp)
      simp [Nat.not_lt.mpr this]

theorem dropWhile_append_shallow {depth : Nat} {pending : List (Nat × Rose α)}
    (h : Shallow depth pending) (cs : List (Rose α)) :
    ((cs.map fun c => (depth + 1, c)) ++ pending).dropWhile (fun p => decide (depth < p.1)) =
      pending := by
  rw [List.dropWhile_append_of_pos (by simp)]
  cases pending with
  | nil => simp
  | cons p ps =>
      have := h p (by simp)
      simp [Nat.not_lt.mpr this]

mutual

theorem foldr_adopt_rowsFrom (depth : Nat) (t : Rose α) (pending : List (Nat × Rose α))
    (h : Shallow depth pending) :
    (t.rowsFrom depth).foldr adopt pending = (depth, t) :: pending :=
  match t with
  | .node x cs => by
      have hs : Shallow (depth + 1) pending := fun p hp => Nat.le_succ_of_le (h p hp)
      rw [rowsFrom, List.foldr_cons, foldr_adopt_forestRows (depth + 1) cs pending hs, adopt]
      simp only [takeWhile_append_shallow h, dropWhile_append_shallow h, List.map_map]
      congr 3
      exact List.map_id cs

theorem foldr_adopt_forestRows (depth : Nat) (cs : List (Rose α)) (pending : List (Nat × Rose α))
    (h : Shallow depth pending) :
    (forestRows depth cs).foldr adopt pending = (cs.map fun c => (depth, c)) ++ pending :=
  match cs with
  | [] => rfl
  | c :: cs => by
      rw [forestRows, List.foldr_append, foldr_adopt_forestRows depth cs pending h,
        foldr_adopt_rowsFrom depth c _ (by
          intro p hp
          rcases List.mem_append.mp hp with hp | hp
          · obtain ⟨_, _, rfl⟩ := List.mem_map.mp hp
            exact Nat.le_refl depth
          · exact h p hp)]
      rfl

end

/-- Rows read back to the tree that they were written from. -/
theorem ofRows?_rows (t : Rose α) : ofRows? t.rows = some t := by
  have h := foldr_adopt_rowsFrom 0 t [] (by simp [Shallow])
  simp [ofRows?, rows, h]

end Rose

end RenderGate
