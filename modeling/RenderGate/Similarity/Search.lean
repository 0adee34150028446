/-!
# The search for the longest common block

The longest block that two sequences share in a window is found on one pass over the first sequence.
An index of the second sequence tells where the element at hand stands there, and at each of these
places the common stretch that ended just before, at the element before, grows by one.  Only what
the places of one element yield is kept for the next one.  Of several longest blocks the one counts
that starts first in the first sequence, then first in the second.
-/

namespace RenderGate.Similarity

/-- A stretch of elements that two sequences share. -/
structure Block where
  aStart : Nat
  bStart : Nat
  size : Nat
deriving DecidableEq, Repr

/-- Places of two sequences that are to be aligned with each other. -/
structure Window where
  aStart : Nat
  aStop : Nat
  bStart : Nat
  bStop : Nat
deriving DecidableEq, Repr

/-- The start of a window as an empty block. -/
def Window.first (w : Window) : Block := ⟨w.aStart, w.bStart, 0⟩

variable {α : Type} [DecidableEq α]

/-! ## Places of elements -/

/-- The places at which each element of a sequence stands. -/
abbrev Index (α : Type) := List (α × Array Nat)

namespace Index

def note (x : α) (j : Nat) : Index α → Index α
  | [] => [(x, #[j])]
  | (y, places) :: entries =>
      if x = y then (y, places.push j) :: entries else (y, places) :: note x j entries

def ofList (bs : List α) : Index α :=
  bs.zipIdx.foldl (fun index p => note p.1 p.2 index) []

def places (index : Index α) (x : α) : List Nat := ((index.lookup x).getD #[]).toList

end Index

/-- Two sequences, and where the elements of the second one stand in it. -/
structure Matcher (α : Type) [DecidableEq α] where
  as : List α
  bs : List α
  index : Index α
  index_eq : index = .ofList bs

def Matcher.ofLists (as bs : List α) : Matcher α := ⟨as, bs, .ofList bs, rfl⟩

/-! ## The pass over the first sequence -/

/-- A difference that must not be negative. -/
def difference? (m n : Nat) : Option Nat := if n ≤ m then some (m - n) else none

/-- The block of a size that ends at the places `i` and `j`. -/
def Block.endingAt? (i j size : Nat) : Option Block := do
  return ⟨← difference? (i + 1) size, ← difference? (j + 1) size, size⟩

/-- The longer one of a block and the stretch of length `run` that ends at the places `i` and `j`;
the block found earlier is kept if the lengths are equal. -/
def Block.improve? (best : Block) (i j run : Nat) : Option Block :=
  if best.size < run then Block.endingAt? i j run else some best

/-- What a search has found so far.  The runs are the lengths of the common stretches that end at
one element of the first sequence, by the place in the second one at which they end; where none
ends, the run is 0. -/
structure Search where
  best : Block
  runs : Array Nat

namespace Search

def runBefore (runs : Array Nat) : Nat → Nat
  | 0 => 0
  | j + 1 => runs.getD j 0

/-- The elements at the places `i` and `j` are equal and prolong the run that ends just before
them. -/
def visit (previous : Array Nat) (i : Nat) (s : Search) (j : Nat) : Option Search := do
  let run := runBefore previous j + 1
  return ⟨← s.best.improve? i j run, s.runs.setIfInBounds j run⟩

/-- Visits the places of the element at place `i`.  Those before the window are passed over, and the
first one behind it is the end. -/
def visitPlaces (previous : Array Nat) (w : Window) (i : Nat) :
    List Nat → Search → Option Search
  | [], s => some s
  | j :: js, s =>
      if j < w.bStart then visitPlaces previous w i js s
      else if w.bStop ≤ j then some s
      else do visitPlaces previous w i js (← s.visit previous i j)

end Search

namespace Matcher

/-- The best block after `count` more elements of the first sequence, from place `i` on. -/
def searchFrom (m : Matcher α) (w : Window) : Nat → Nat → Search → Option Block
  | 0, _, s => some s.best
  | count + 1, i, s => do
      let x ← m.as[i]?
      let s ← Search.visitPlaces s.runs w i (m.index.places x) ⟨s.best, .replicate s.runs.size 0⟩
      m.searchFrom w count (i + 1) s

/-- The search of a window for its longest common block.  It fails where it would read behind the
end of the first sequence, and where a block would start before the first place. -/
def search? (m : Matcher α) (w : Window) : Option Block :=
  m.searchFrom w (w.aStop - w.aStart) w.aStart ⟨w.first, .replicate m.bs.length 0⟩

/-- The longest common block of a window; it has size 0 if the window has none or the search
fails. -/
def longest (m : Matcher α) (w : Window) : Block := (m.search? w).getD w.first

end Matcher

/-- The longest common block between two stretches of two sequences, by its places in the whole
sequences. -/
def longestIn (as bs : List α) (aStart aStop bStart bStop : Nat) : Block :=
  (Matcher.ofLists as bs).longest ⟨aStart, aStop, bStart, bStop⟩

def Window.longest (as bs : List α) (w : Window) : Block :=
  longestIn as bs w.aStart w.aStop w.bStart w.bStop

theorem Window.longest_eq (as bs : List α) (w : Window) :
    w.longest as bs = (Matcher.ofLists as bs).longest w := rfl

/-! ## Where a block starts -/

theorem Block.endingAt?_eq_some_iff {i j size : Nat} {p : Block} :
    Block.endingAt? i j size = some p ↔
      size ≤ i + 1 ∧ size ≤ j + 1 ∧ p = ⟨i + 1 - size, j + 1 - size, size⟩ := by
  unfold Block.endingAt? difference?
  by_cases hi : size ≤ i + 1
  · by_cases hj : size ≤ j + 1
    · simp [hi, hj, eq_comm]
    · simp [hi, hj]
  · simp [hi]

theorem getD_replicate_zero (n k : Nat) : (Array.replicate n 0).getD k 0 = 0 := by
  rw [Array.getD_eq_getD_getElem?, Array.getElem?_replicate]
  split <;> rfl

theorem getD_setIfInBounds (row : Array Nat) (i k value : Nat) (hi : i < row.size) :
    (row.setIfInBounds i value).getD k 0 = if k = i then value else row.getD k 0 := by
  rw [Array.getD_eq_getD_getElem?, Array.getD_eq_getD_getElem?, Array.getElem?_setIfInBounds]
  by_cases h : i = k
  · subst h
    simp [hi]
  · simp [h, Ne.symm h]

theorem getD_setIfInBounds_le {row : Array Nat} {bound value : Nat} (i : Nat)
    (h : ∀ k, row.getD k 0 ≤ bound) (hvalue : value ≤ bound) (k : Nat) :
    (row.setIfInBounds i value).getD k 0 ≤ bound := by
  by_cases hi : i < row.size
  · rw [getD_setIfInBounds row i k value hi]
    split
    · exact hvalue
    · exact h k
  · rw [Array.setIfInBounds_eq_of_size_le (Nat.le_of_not_lt hi)]
    exact h k

namespace Search

/-- What was found between two places of the first sequence, the second one not included: no run is
longer than the stretch between them, and a best block that is not empty starts in it. -/
structure Between (start stop : Nat) (s : Search) : Prop where
  runs : ∀ j, s.runs.getD j 0 ≤ stop - start
  best : s.best.size ≠ 0 → start ≤ s.best.aStart ∧ s.best.aStart < stop

namespace Between

variable {start i : Nat} {previous : Array Nat} {s s' : Search}

theorem visit {j : Nat} (hi : start ≤ i) (hprevious : ∀ k, previous.getD k 0 ≤ i - start)
    (h : s.Between start (i + 1)) (hs : s.visit previous i j = some s') :
    s'.Between start (i + 1) := by
  have hrun : runBefore previous j + 1 ≤ i + 1 - start := by
    cases j with
    | zero =>
        rw [runBefore]
        omega
    | succ j =>
        have := hprevious j
        rw [runBefore]
        omega
  obtain ⟨best, hbest, hs⟩ := Option.bind_eq_some_iff.mp hs
  obtain rfl := Option.some.inj hs
  refine ⟨getD_setIfInBounds_le j h.runs hrun, fun hsize => ?_⟩
  unfold Block.improve? at hbest
  split at hbest
  · obtain ⟨-, -, rfl⟩ := Block.endingAt?_eq_some_iff.mp hbest
    simp only
    omega
  · obtain rfl := Option.some.inj hbest
    exact h.best hsize

theorem visitPlaces {w : Window} {js : List Nat} (hi : start ≤ i)
    (hprevious : ∀ k, previous.getD k 0 ≤ i - start) (h : s.Between start (i + 1))
    (hs : visitPlaces previous w i js s = some s') : s'.Between start (i + 1) := by
  induction js generalizing s with
  | nil => exact Option.some.inj hs ▸ h
  | cons j js ih =>
      rw [Search.visitPlaces] at hs
      split at hs
      · exact ih h hs
      · split at hs
        · exact Option.some.inj hs ▸ h
        · obtain ⟨t, ht, hs⟩ := Option.bind_eq_some_iff.mp hs
          exact ih (h.visit hi hprevious ht) hs

theorem searchFrom {m : Matcher α} {w : Window} {count : Nat} {found : Block} (hi : start ≤ i)
    (h : s.Between start i) (hs : m.searchFrom w count i s = some found)
    (hsize : found.size ≠ 0) : start ≤ found.aStart ∧ found.aStart < i + count := by
  induction count generalizing i s with
  | zero =>
      obtain rfl := Option.some.inj hs
      exact h.best hsize
  | succ count ih =>
      obtain ⟨x, -, hs⟩ := Option.bind_eq_some_iff.mp hs
      obtain ⟨t, ht, hs⟩ := Option.bind_eq_some_iff.mp hs
      have hrow : Between start (i + 1) ⟨s.best, .replicate s.runs.size 0⟩ :=
        ⟨fun k => Nat.le_trans (Nat.le_of_eq (getD_replicate_zero _ k)) (Nat.zero_le _),
          fun hbest => (h.best hbest).imp_right Nat.lt_succ_of_lt⟩
      have := ih (Nat.le_succ_of_le hi) (hrow.visitPlaces hi h.runs ht) hs
      omega

end Between

end Search

/-- A longest block that is not empty starts in its window. -/
theorem Matcher.aStart_longest_bounds {m : Matcher α} {w : Window} (h : (m.longest w).size ≠ 0) :
    w.aStart ≤ (m.longest w).aStart ∧ (m.longest w).aStart < w.aStop := by
  unfold Matcher.longest at h ⊢
  cases hs : m.search? w with
  | none =>
      rw [hs] at h
      exact absurd rfl h
  | some found =>
      rw [hs] at h
      have hstart : Search.Between w.aStart w.aStart ⟨w.first, .replicate m.bs.length 0⟩ :=
        ⟨fun k => Nat.le_trans (Nat.le_of_eq (getD_replicate_zero _ k)) (Nat.zero_le _),
          fun hbest => absurd rfl hbest⟩
      have := hstart.searchFrom (Nat.le_refl _) hs h
      simp only [Option.getD_some] at h ⊢
      omega

end RenderGate.Similarity
