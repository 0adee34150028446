/-!
# Edit distance

The least number of insertions, deletions and substitutions of one character that turn a text into
another, and the similarity that it yields.  The distances between the beginnings of two texts form
a table with a row for every beginning of the longer one.  Only two rows of it are kept: one that is
complete, and one that is overwritten from left to right; then they change places.
-/

namespace RenderGate.Similarity

variable {α : Type} [DecidableEq α]

/-- A cell of the table from the cell above and to the left, the one above and the one to the left:
the last elements are substituted, or the one of either text is deleted or inserted. -/
def cell (x y : α) (diagonal above left : Nat) : Nat :=
  min (min (diagonal + if x = y then 0 else 1) (above + 1)) (left + 1)

/-- Overwrites the cells of a row to the right of place `j`, one for each of the elements given, by
what the row above it and the cell on the left tell. -/
def overwrite (x : α) (above : Array Nat) : Nat → List α → Array Nat → Array Nat
  | _, [], row => row
  | j, y :: ys, row =>
      overwrite x above (j + 1) ys (row.setIfInBounds (j + 1)
        (cell x y (above.getD j 0) (above.getD (j + 1) 0) (row.getD j 0)))

/-- The last row of the table: the elements of the longer text, from the one at place `i` on, each
overwrite a row, which then is the complete one. -/
def lastRow (shorter : List α) : Nat → List α → Array Nat → Array Nat → Array Nat
  | _, [], previous, _ => previous
  | i, x :: xs, previous, current =>
      lastRow shorter (i + 1) xs
        (overwrite x previous 0 shorter (current.setIfInBounds 0 (i + 1))) previous

/-- The edit distance of two sequences, of which the longer one is taken element by element. -/
def distance (as bs : List α) : Nat :=
  if as.isEmpty then bs.length
  else if bs.isEmpty then as.length
  else
    let longer := if bs.length ≤ as.length then as else bs
    let shorter := if bs.length ≤ as.length then bs else as
    (lastRow shorter 0 longer (.range (shorter.length + 1))
      (.replicate (shorter.length + 1) 0)).getD shorter.length 0

/-- A number brought between 0 and 1; what is not a number stays so. -/
def clampUnit (x : Float) : Float := if x < 0.0 then 0.0 else if 1.0 < x then 1.0 else x

/-- One less the distance by the longer length: 1 for two empty texts, 0 if only one is empty. -/
def editSimilarity (s t : String) : Float :=
  let as := s.toList
  let bs := t.toList
  if as.isEmpty && bs.isEmpty then 1.0
  else if as.isEmpty || bs.isEmpty then 0.0
  else clampUnit (1.0 - Float.ofNat (distance as bs) / Float.ofNat (max as.length bs.length))

end RenderGate.Similarity
