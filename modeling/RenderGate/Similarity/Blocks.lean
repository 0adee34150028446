import RenderGate.Similarity.Search

/-!
# Matching blocks

Two sequences are aligned by their longest common block: it is found first, and the parts to its
left and to its right are aligned in the same way.  The parts that are still to be aligned wait on a
stack, so blocks are found from the right to the left of every block before them, and they are put
in order at the end.  The ratio of matched elements to all elements measures how similar the
sequences are.
-/

namespace RenderGate.Similarity

variable {α : Type} [DecidableEq α]

/-- The first block starts before the second one or where it starts: what counts is the place in the
first sequence, then the place in the second. -/
def Block.StartsFirst (p q : Block) : Prop :=
  p.aStart < q.aStart ∨ (p.aStart = q.aStart ∧ p.bStart ≤ q.bStart)

instance (p q : Block) : Decidable (p.StartsFirst q) :=
  inferInstanceAs (Decidable (_ ∨ _))

namespace Window

def whole (as bs : List α) : Window := ⟨0, as.length, 0, bs.length⟩

def before (w : Window) (block : Block) : Window :=
  ⟨w.aStart, block.aStart, w.bStart, block.bStart⟩

def after (w : Window) (block : Block) : Window :=
  ⟨block.aStart + block.size, w.aStop, block.bStart + block.size, w.bStop⟩

def Inhabited (w : Window) : Prop := w.aStart < w.aStop ∧ w.bStart < w.bStop

instance (w : Window) : Decidable w.Inhabited := inferInstanceAs (Decidable (_ ∧ _))

/-- The parts of a window beside a block in which there is something to align, the right one
first. -/
def beside (w : Window) (block : Block) : List Window :=
  (if (w.after block).Inhabited then [w.after block] else []) ++
    if (w.before block).Inhabited then [w.before block] else []

/-- A bound on the blocks and the empty searches that windows on a stack can still lead to. -/
def weight : List Window → Nat
  | [] => 0
  | w :: pending => 2 * (w.aStop - w.aStart) + 1 + weight pending

theorem weight_append (ws pending : List Window) :
    weight (ws ++ pending) = weight ws + weight pending := by
  induction ws with
  | nil => simp [weight]
  | cons w ws ih => simp only [List.cons_append, weight, ih, Nat.add_assoc]

/-- The parts beside a block that lies in the window weigh less than the window. -/
theorem weight_beside_lt {w : Window} {block : Block} (hs : block.size ≠ 0)
    (h : w.aStart ≤ block.aStart ∧ block.aStart < w.aStop) :
    weight (w.beside block) < weight [w] := by
  unfold beside
  split <;> split <;> rename_i hafter hbefore <;>
    simp only [Inhabited, before, after] at hafter hbefore <;>
    simp only [List.append_nil, List.nil_append, List.cons_append, weight, before, after] <;> omega

end Window

/-- The blocks that the windows on a stack lead to, in the order in which they are found. -/
def drain (m : Matcher α) : List Window → List Block
  | [] => []
  | w :: pending =>
      let found := m.longest w
      if _ : found.size = 0 then drain m pending
      else found :: drain m (w.beside found ++ pending)
termination_by pending => Window.weight pending
decreasing_by
  · simp only [Window.weight]
    omega
  · have := Window.weight_beside_lt ‹_› (Matcher.aStart_longest_bounds ‹_›)
    simp only [Window.weight, Window.weight_append] at this ⊢
    omega

def matchingBlocks (as bs : List α) : List Block :=
  (drain (.ofLists as bs) [.whole as bs]).mergeSort fun p q => decide (p.StartsFirst q)

def matched (as bs : List α) : Nat :=
  (matchingBlocks as bs).foldr (fun block count => block.size + count) 0

/-- Twice the matched elements by all elements: 1 for two empty sequences, 0 if only one is
empty. -/
def ratio (as bs : List α) : Float :=
  if as.isEmpty && bs.isEmpty then 1.0
  else if as.isEmpty || bs.isEmpty then 0.0
  else 2.0 * Float.ofNat (matched as bs) / Float.ofNat (as.length + bs.length)

end RenderGate.Similarity
