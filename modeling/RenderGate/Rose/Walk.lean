import RenderGate.Rose

/-!
# Walks with a stack

A walk visits all nodes of a tree without recursion on the tree: the trees that are still to be
visited lie on a stack, each with the depth of its root.  The tree on top is taken from the stack,
its root is visited, and its children are pushed; so a node comes before what lies below it, and
that comes before the rest of the stack.
-/

namespace RenderGate.Rose

variable {α β σ : Type}

inductive Direction where
  /-- The children are pushed from the last one to the first one. -/
  | rightward
  /-- The children are pushed from the first one to the last one. -/
  | leftward
deriving DecidableEq, Repr

/-- Siblings as they lie on the stack, the top first. -/
def Direction.arrange : Direction → List β → List β
  | .rightward, cs => cs
  | .leftward, cs => cs.reverse

theorem forestSize_append (cs ds : List (Rose α)) :
    forestSize (cs ++ ds) = forestSize cs + forestSize ds := by
  induction cs with
  | nil => simp [forestSize]
  | cons c cs ih => simp only [List.cons_append, forestSize, ih, Nat.add_assoc]

theorem forestSize_arrange (direction : Direction) (cs : List (Rose α)) :
    forestSize (direction.arrange cs) = forestSize cs := by
  cases direction with
  | rightward => rfl
  | leftward =>
      rw [Direction.arrange]
      induction cs with
      | nil => rfl
      | cons c cs ih =>
          rw [List.reverse_cons, forestSize_append, ih, forestSize, forestSize, forestSize,
            Nat.add_zero, Nat.add_comm]

def pushed (direction : Direction) (depth : Nat) (cs : List (Rose α))
    (pending : List (Nat × Rose α)) : List (Nat × Rose α) :=
  (direction.arrange cs).map (fun c => (depth, c)) ++ pending

theorem forestSize_pushed (direction : Direction) (depth : Nat) (cs : List (Rose α))
    (pending : List (Nat × Rose α)) :
    forestSize ((pushed direction depth cs pending).map Prod.snd) =
      forestSize cs + forestSize (pending.map Prod.snd) := by
  have hsnd : ((direction.arrange cs).map fun c => (depth, c)).map Prod.snd =
      direction.arrange cs := by
    rw [List.map_map]
    exact List.map_id _
  rw [pushed, List.map_append, hsnd, forestSize_append, forestSize_arrange]

/-- The state to which the visits lead of all nodes of the trees on a stack. -/
def walk (direction : Direction) (visit : σ → Nat → α → σ) : List (Nat × Rose α) → σ → σ
  | [], state => state
  | (depth, .node x cs) :: pending, state =>
      walk direction visit (pushed direction (depth + 1) cs pending) (visit state depth x)
termination_by pending => forestSize (pending.map Prod.snd)
decreasing_by
  rw [forestSize_pushed, List.map_cons, forestSize, size]
  omega

end RenderGate.Rose
