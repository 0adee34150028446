import Mathlib.Order.Bounds.Basic
import Mathlib.Order.MinMax

/-!
# Edits

A list is edited at any place, and in any order of places, by inserting, deleting or substituting
one element.  How many edits are needed at least is told by a recursion that looks at the first
elements only (`isLeast_leastEdits`): an edit at any place changes what the recursion tells by at
most one, and the recursion can be read as a script.  Edits can be read backwards, so the recursion
tells the same of the reversed lists.
-/

namespace RenderGate.Similarity

variable {α : Type}

/-- The second list is the first one with one element inserted, deleted or substituted. -/
inductive Edit : List α → List α → Prop
  | insert (before : List α) (x : α) (after : List α) :
      Edit (before ++ after) (before ++ x :: after)
  | delete (before : List α) (x : α) (after : List α) :
      Edit (before ++ x :: after) (before ++ after)
  | substitute (before : List α) (x y : α) (after : List α) :
      Edit (before ++ x :: after) (before ++ y :: after)

/-- The first list is turned into the second one by so many edits, one after the other. -/
inductive Edits : ℕ → List α → List α → Prop
  | none (as : List α) : Edits 0 as as
  | step {n : ℕ} {as bs cs : List α} (first : Edit as bs) (rest : Edits n bs cs) :
      Edits (n + 1) as cs

theorem Edit.cons {as bs : List α} (x : α) (h : Edit as bs) : Edit (x :: as) (x :: bs) := by
  cases h with
  | insert before y after => exact .insert (x :: before) y after
  | delete before y after => exact .delete (x :: before) y after
  | substitute before y z after => exact .substitute (x :: before) y z after

theorem Edit.reverse {as bs : List α} (h : Edit as bs) : Edit as.reverse bs.reverse := by
  cases h with
  | insert before x after =>
      have := Edit.insert after.reverse x before.reverse
      simpa only [List.reverse_append, List.reverse_cons, List.append_assoc, List.singleton_append]
  | delete before x after =>
      have := Edit.delete after.reverse x before.reverse
      simpa only [List.reverse_append, List.reverse_cons, List.append_assoc, List.singleton_append]
  | substitute before x y after =>
      have := Edit.substitute after.reverse x y before.reverse
      simpa only [List.reverse_append, List.reverse_cons, List.append_assoc, List.singleton_append]

namespace Edits

variable {n : ℕ} {as bs : List α}

theorem cons (x : α) (h : Edits n as bs) : Edits n (x :: as) (x :: bs) := by
  induction h with
  | none as => exact .none (x :: as)
  | step first _ ih => exact .step (first.cons x) ih

theorem reverse (h : Edits n as bs) : Edits n as.reverse bs.reverse := by
  induction h with
  | none as => exact .none as.reverse
  | step first _ ih => exact .step first.reverse ih

theorem reverse_iff : Edits n as.reverse bs.reverse ↔ Edits n as bs := by
  refine ⟨fun h => ?_, reverse⟩
  have := h.reverse
  rwa [List.reverse_reverse, List.reverse_reverse] at this

theorem insertAll (bs : List α) : Edits bs.length [] bs := by
  induction bs with
  | nil => exact .none []
  | cons b bs ih => exact .step (.insert [] b []) (ih.cons b)

theorem deleteAll (as : List α) : Edits as.length as [] := by
  induction as with
  | nil => exact .none []
  | cons a as ih => exact .step (.delete [] a as) ih

end Edits

variable [DecidableEq α]

/-- The least number of edits: equal first elements are kept; of different ones the first is
deleted, the second inserted, or the first substituted by the second. -/
def leastEdits : List α → List α → ℕ
  | [], bs => bs.length
  | x :: xs, [] => (x :: xs).length
  | x :: xs, y :: ys =>
      if x = y then leastEdits xs ys
      else
        1 + min (leastEdits xs (y :: ys)) (min (leastEdits (x :: xs) ys) (leastEdits xs ys))
termination_by as bs => as.length + bs.length

theorem leastEdits_nil_left (bs : List α) : leastEdits [] bs = bs.length := by
  rw [leastEdits]

theorem leastEdits_nil_right (as : List α) : leastEdits as [] = as.length := by
  cases as with
  | nil => rw [leastEdits]
  | cons x xs => rw [leastEdits]

theorem leastEdits_cons_self (x : α) (xs ys : List α) :
    leastEdits (x :: xs) (x :: ys) = leastEdits xs ys := by
  rw [leastEdits, if_pos rfl]

theorem leastEdits_cons_of_ne {x y : α} (h : x ≠ y) (xs ys : List α) :
    leastEdits (x :: xs) (y :: ys) =
      1 + min (leastEdits xs (y :: ys)) (min (leastEdits (x :: xs) ys) (leastEdits xs ys)) := by
  rw [leastEdits, if_neg h]

theorem leastEdits_comm (as bs : List α) : leastEdits as bs = leastEdits bs as := by
  induction as, bs using leastEdits.induct with
  | case1 bs => rw [leastEdits_nil_left, leastEdits_nil_right]
  | case2 x xs => rw [leastEdits_nil_left, leastEdits_nil_right]
  | case3 xs y ys ih => rw [leastEdits_cons_self, leastEdits_cons_self, ih]
  | case4 x xs y ys h ih₁ ih₂ ih₃ =>
      rw [leastEdits_cons_of_ne h, leastEdits_cons_of_ne (Ne.symm h), ih₁, ih₂, ih₃,
        min_left_comm]

/-- Where one more element on the right costs at most one edit, one more on the left saves at most
one. -/
theorem leastEdits_le_cons_of {xs : List α}
    (h : ∀ y ys, leastEdits xs (y :: ys) ≤ leastEdits xs ys + 1) (x : α) (ys : List α) :
    leastEdits xs ys ≤ leastEdits (x :: xs) ys + 1 := by
  induction ys with
  | nil =>
      rw [leastEdits_nil_right, leastEdits_nil_right, List.length_cons]
      omega
  | cons y ys ih =>
      have hright := h y ys
      by_cases hxy : x = y
      · rwa [hxy, leastEdits_cons_self]
      · rw [leastEdits_cons_of_ne hxy]
        omega

/-- One more element on the right costs at most one edit: it may be inserted. -/
theorem leastEdits_cons_right_le (y : α) (xs ys : List α) :
    leastEdits xs (y :: ys) ≤ leastEdits xs ys + 1 := by
  induction xs generalizing y ys with
  | nil => rw [leastEdits_nil_left, leastEdits_nil_left, List.length_cons]
  | cons x xs ih =>
      by_cases hxy : x = y
      · rw [← hxy, leastEdits_cons_self]
        exact leastEdits_le_cons_of ih x ys
      · rw [leastEdits_cons_of_ne hxy]
        omega

theorem leastEdits_le_cons_left (x : α) (xs ys : List α) :
    leastEdits xs ys ≤ leastEdits (x :: xs) ys + 1 :=
  leastEdits_le_cons_of (fun y ys => leastEdits_cons_right_le y xs ys) x ys

theorem leastEdits_cons_left_le (x : α) (xs ys : List α) :
    leastEdits (x :: xs) ys ≤ leastEdits xs ys + 1 := by
  rw [leastEdits_comm (x :: xs), leastEdits_comm xs]
  exact leastEdits_cons_right_le x ys xs

theorem leastEdits_le_cons_right (y : α) (xs ys : List α) :
    leastEdits xs ys ≤ leastEdits xs (y :: ys) + 1 := by
  rw [leastEdits_comm xs, leastEdits_comm xs]
  exact leastEdits_le_cons_left y ys xs

/-- Nothing is lost if it is tried to delete or to insert an element that could be kept. -/
theorem leastEdits_cons_cons (x y : α) (xs ys : List α) :
    leastEdits (x :: xs) (y :: ys) =
      min (leastEdits xs ys + if x = y then 0 else 1)
        (min (leastEdits xs (y :: ys) + 1) (leastEdits (x :: xs) ys + 1)) := by
  split
  · rename_i hxy
    subst hxy
    have hleft := leastEdits_le_cons_left x xs ys
    have hright := leastEdits_le_cons_right x xs ys
    rw [leastEdits_cons_self]
    omega
  · rename_i hxy
    rw [leastEdits_cons_of_ne hxy]
    omega

/-- What lists that begin with the same element need differs no more than what their rests need. -/
theorem leastEdits_cons_le_of {us vs : List α}
    (h : ∀ cs, leastEdits us cs ≤ leastEdits vs cs + 1) (b : α) (cs : List α) :
    leastEdits (b :: us) cs ≤ leastEdits (b :: vs) cs + 1 := by
  induction cs with
  | nil =>
      have := h []
      rw [leastEdits_nil_right, leastEdits_nil_right] at this ⊢
      rw [List.length_cons, List.length_cons]
      omega
  | cons c cs ih =>
      have hkept := h cs
      have hdeleted := h (c :: cs)
      rw [leastEdits_cons_cons, leastEdits_cons_cons b c vs]
      omega

theorem leastEdits_substitute_le (x y : α) (xs ys : List α) :
    leastEdits (x :: xs) ys ≤ leastEdits (y :: xs) ys + 1 := by
  induction ys with
  | nil =>
      rw [leastEdits_nil_right, leastEdits_nil_right, List.length_cons, List.length_cons]
      omega
  | cons z ys ih =>
      rw [leastEdits_cons_cons, leastEdits_cons_cons y]
      split <;> split <;> omega

/-- An edit changes what is needed by at most one. -/
theorem Edit.leastEdits_le {as bs : List α} (h : Edit as bs) (cs : List α) :
    leastEdits as cs ≤ leastEdits bs cs + 1 := by
  have hbefore : ∀ (before us vs : List α), (∀ cs, leastEdits us cs ≤ leastEdits vs cs + 1) →
      ∀ cs, leastEdits (before ++ us) cs ≤ leastEdits (before ++ vs) cs + 1 := by
    intro before us vs h
    induction before with
    | nil => exact h
    | cons b before ih => exact leastEdits_cons_le_of ih b
  cases h with
  | insert before x after => exact hbefore before _ _ (leastEdits_le_cons_left x after) cs
  | delete before x after => exact hbefore before _ _ (leastEdits_cons_left_le x after) cs
  | substitute before x y after => exact hbefore before _ _ (leastEdits_substitute_le x y after) cs

theorem Edits.leastEdits_le {n : ℕ} {as bs : List α} (h : Edits n as bs) :
    leastEdits as bs ≤ n := by
  induction h with
  | none as =>
      induction as with
      | nil => rw [leastEdits_nil_left, List.length_nil]
      | cons a as ih => rwa [leastEdits_cons_self]
  | step first _ ih => exact (first.leastEdits_le _).trans (Nat.succ_le_succ ih)

/-- The recursion, read as a script. -/
theorem edits_leastEdits (as bs : List α) : Edits (leastEdits as bs) as bs := by
  induction as, bs using leastEdits.induct with
  | case1 bs =>
      rw [leastEdits_nil_left]
      exact .insertAll bs
  | case2 x xs =>
      rw [leastEdits_nil_right]
      exact .deleteAll (x :: xs)
  | case3 xs y ys ih =>
      rw [leastEdits_cons_self]
      exact ih.cons y
  | case4 x xs y ys h ih₁ ih₂ ih₃ =>
      have hdelete : Edits (leastEdits xs (y :: ys) + 1) (x :: xs) (y :: ys) :=
        .step (.delete [] x xs) ih₁
      have hinsert : Edits (leastEdits (x :: xs) ys + 1) (x :: xs) (y :: ys) :=
        .step (.insert [] y (x :: xs)) (ih₂.cons y)
      have hsubstitute : Edits (leastEdits xs ys + 1) (x :: xs) (y :: ys) :=
        .step (.substitute [] x y xs) (ih₃.cons y)
      rw [leastEdits_cons_of_ne h, Nat.add_comm]
      rcases min_choice (leastEdits xs (y :: ys)) (min (leastEdits (x :: xs) ys) (leastEdits xs ys))
        with hmin | hmin
      · rwa [hmin]
      · rw [hmin]
        rcases min_choice (leastEdits (x :: xs) ys) (leastEdits xs ys) with hmin | hmin
        · rwa [hmin]
        · rwa [hmin]

/-- The recursion tells the least number of edits. -/
theorem isLeast_leastEdits (as bs : List α) : IsLeast {n | Edits n as bs} (leastEdits as bs) :=
  ⟨edits_leastEdits as bs, fun _ h => Edits.leastEdits_le h⟩

theorem leastEdits_reverse (as bs : List α) :
    leastEdits as.reverse bs.reverse = leastEdits as bs := by
  refine (isLeast_leastEdits as.reverse bs.reverse).unique ?_
  simpa only [Edits.reverse_iff] using isLeast_leastEdits as bs

end RenderGate.Similarity
