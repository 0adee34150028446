import RenderGate.Proofs.Similarity.Window
import Mathlib.Data.List.Induction

/-!
# What the search for the longest common block finds

The index tells the places of an element in increasing order, and at the places between them no run
ends.  A row of runs that is right up to a place (`Runs`) is kept right from place to place, and so
is the best block of what was seen (`Reached`).  So in a window that ends within the first sequence
the search never fails, and it finds the best block of the two stretches (`exists_best`).
-/

namespace RenderGate.Similarity

variable {α : Type}

/-! ## The index -/

/-- All places from `start` on at which an element stands, in increasing order. -/
structure PlacesFrom (bs : List α) (x : α) (start : ℕ) (js : List ℕ) : Prop where
  increasing : js.Pairwise (· < ·)
  mem_iff : ∀ k, k ∈ js ↔ start ≤ k ∧ bs[k]? = some x

namespace PlacesFrom

variable {bs : List α} {x : α} {start j : ℕ} {js : List ℕ}

theorem first_le {k : ℕ} (h : PlacesFrom bs x start (j :: js)) (hk : start ≤ k)
    (hx : bs[k]? = some x) : j ≤ k := by
  rcases List.mem_cons.mp ((h.mem_iff k).mpr ⟨hk, hx⟩) with rfl | hk
  · exact Nat.le_refl _
  · exact Nat.le_of_lt ((List.pairwise_cons.mp h.increasing).1 k hk)

theorem tail (h : PlacesFrom bs x start (j :: js)) : PlacesFrom bs x (j + 1) js := by
  obtain ⟨hlt, hsorted⟩ := List.pairwise_cons.mp h.increasing
  have hj := ((h.mem_iff j).mp List.mem_cons_self).1
  refine ⟨hsorted, fun k => ⟨fun hk => ?_, fun ⟨hk, hx⟩ => ?_⟩⟩
  · exact ⟨hlt k hk, ((h.mem_iff k).mp (List.mem_cons_of_mem j hk)).2⟩
  · rcases List.mem_cons.mp ((h.mem_iff k).mpr ⟨by omega, hx⟩) with rfl | hk
    · omega
    · exact hk

end PlacesFrom

variable [DecidableEq α]

namespace Index

theorem places_cons (y : α) (js : Array ℕ) (index : Index α) (x : α) :
    places ((y, js) :: index) x = if x = y then js.toList else places index x := by
  unfold places
  rw [List.lookup_cons]
  by_cases h : x = y
  · rw [if_pos h, beq_iff_eq.mpr h]
    rfl
  · rw [if_neg h, beq_false_of_ne h]

theorem places_note (y : α) (j : ℕ) (index : Index α) (x : α) :
    (note y j index).places x = if x = y then index.places x ++ [j] else index.places x := by
  induction index with
  | nil =>
      rw [note, places_cons]
      rfl
  | cons entry index ih =>
      obtain ⟨z, js⟩ := entry
      rw [note]
      split
      · rename_i hyz
        subst hyz
        rw [places_cons, places_cons]
        split
        · exact Array.toList_push
        · rfl
      · rename_i hyz
        rw [places_cons, places_cons, ih]
        split
        · rename_i hxz
          rw [if_neg fun hxy => hyz (hxy.symm.trans hxz)]
        · rfl

/-- The index tells the places of an element in increasing order. -/
theorem places_ofList (bs : List α) (x : α) :
    (ofList bs).places x = (List.range bs.length).filter fun j => bs[j]? = some x := by
  induction bs using List.reverseRecOn with
  | nil => rfl
  | append_singleton bs y ih =>
      have hsnoc : ofList (bs ++ [y]) = note y bs.length (ofList bs) := by
        rw [ofList, List.zipIdx_append, List.foldl_append]
        simp [ofList]
      have hbefore : (List.range bs.length).filter (fun j => (bs ++ [y])[j]? = some x) =
          (List.range bs.length).filter fun j => bs[j]? = some x := by
        refine List.filter_congr fun j hj => ?_
        rw [List.getElem?_append_left (List.mem_range.mp hj)]
      rw [hsnoc, places_note, ih, List.length_append, List.length_singleton, List.range_succ,
        List.filter_append, hbefore]
      by_cases h : x = y
      · simp [h]
      · simp [h, Ne.symm h]

end Index

namespace Matcher

theorem placesFrom (m : Matcher α) (x : α) : PlacesFrom m.bs x 0 (m.index.places x) := by
  rw [m.index_eq, Index.places_ofList]
  refine ⟨List.pairwise_lt_range.filter _, fun k => ?_⟩
  rw [List.mem_filter, List.mem_range, decide_eq_true_iff]
  constructor
  · exact fun h => ⟨Nat.zero_le k, h.2⟩
  · exact fun h => ⟨(List.getElem?_eq_some_iff.mp h.2).1, h.2⟩

abbrev left (m : Matcher α) (w : Window) : List α := window w.aStart w.aStop m.as

abbrev right (m : Matcher α) (w : Window) : List α := window w.bStart w.bStop m.bs

end Matcher

/-! ## Rows of runs -/

/-- The runs that end just before element `i` of the window.  Those at the first `j` places of the
window are computed; what a row holds behind the window is never read. -/
structure Runs (m : Matcher α) (w : Window) (i j : ℕ) (runs : Array ℕ) : Prop where
  size : runs.size = m.bs.length
  outside : ∀ k, k < w.bStart → runs.getD k 0 = 0
  within : ∀ k, k < (m.right w).length →
    runs.getD (w.bStart + k) 0 = if k < j then endingAt (m.left w) (m.right w) i (k + 1) else 0

namespace Runs

variable {m : Matcher α} {w : Window} {i j : ℕ} {runs : Array ℕ}

/-- In a new row no run is computed. -/
theorem blank (m : Matcher α) (w : Window) (i : ℕ) :
    Runs m w i 0 (.replicate m.bs.length 0) :=
  ⟨Array.size_replicate, fun _ _ => getD_replicate_zero _ _, fun _ _ => getD_replicate_zero _ _⟩

/-- No run ends before the first element. -/
theorem first (m : Matcher α) (w : Window) :
    Runs m w 0 (m.right w).length (.replicate m.bs.length 0) := by
  refine ⟨Array.size_replicate, fun _ _ => getD_replicate_zero _ _, fun _ _ => ?_⟩
  rw [getD_replicate_zero, endingAt_zero_left, ite_self]

theorem skip {j' : ℕ} (h : Runs m w i j runs) (hj : j ≤ j')
    (hnone : ∀ k, j ≤ k → k < j' → endingAt (m.left w) (m.right w) i (k + 1) = 0) :
    Runs m w i j' runs := by
  refine ⟨h.size, h.outside, fun k hk => ?_⟩
  rw [h.within k hk]
  by_cases hkj : k < j
  · rw [if_pos hkj, if_pos (Nat.lt_of_lt_of_le hkj hj)]
  · rw [if_neg hkj]
    split
    · exact (hnone k (Nat.le_of_not_lt hkj) ‹_›).symm
    · rfl

/-- The row before tells the run that ends just before a place of the window. -/
theorem runBefore_eq (h : Runs m w i (m.right w).length runs) (hj : j < (m.right w).length) :
    Search.runBefore runs (w.bStart + j) = endingAt (m.left w) (m.right w) i j := by
  cases j with
  | zero =>
      rw [endingAt_zero_right, Nat.add_zero]
      cases hb : w.bStart with
      | zero => rfl
      | succ b => exact h.outside b (by omega)
  | succ j =>
      have hj' : j < (m.right w).length := Nat.lt_of_succ_lt hj
      rw [← Nat.add_assoc, Search.runBefore, h.within j hj', if_pos hj']

/-- One more run is computed. -/
theorem set (h : Runs m w i j runs) (hj : j < (m.right w).length) :
    Runs m w i (j + 1)
      (runs.setIfInBounds (w.bStart + j) (endingAt (m.left w) (m.right w) i (j + 1))) := by
  have hsize : w.bStart + j < runs.size := h.size ▸ (lt_of_lt_length_window hj).2
  refine ⟨by rw [Array.size_setIfInBounds, h.size], fun k hk => ?_, fun k hk => ?_⟩
  · rw [getD_setIfInBounds _ _ _ _ hsize, if_neg (by omega)]
    exact h.outside k hk
  · rw [getD_setIfInBounds _ _ _ _ hsize, h.within k hk]
    by_cases hkj : k = j
    · subst hkj
      rw [if_pos rfl, if_pos (Nat.lt_succ_self k)]
    · rw [if_neg (by omega)]
      by_cases hlt : k < j
      · rw [if_pos hlt, if_pos (Nat.lt_succ_of_lt hlt)]
      · rw [if_neg hlt, if_neg (by omega)]

end Runs

/-! ## The search -/

/-- A block of a window gives way to a longer run of the window, wherever the window starts. -/
theorem Block.improve?_shift {p : Block} {a b i j run : ℕ} (hi : run ≤ i + 1) (hj : run ≤ j + 1) :
    (p.shift a b).improve? (a + i) (b + j) run =
      some ((if p.size < run then ⟨i + 1 - run, j + 1 - run, run⟩ else p).shift a b) := by
  by_cases h : p.size < run
  · have h' : (p.shift a b).size < run := h
    rw [Block.improve?, if_pos h', if_pos h, Block.endingAt?_eq_some_iff]
    refine ⟨by omega, by omega, ?_⟩
    simp only [Block.shift, Block.mk.injEq, and_true]
    omega
  · have h' : ¬(p.shift a b).size < run := h
    rw [Block.improve?, if_neg h', if_neg h]

/-- The search has come to place `j` of the window with element `i` of it: the new row of runs is
computed up to there, and the block found is the best one of the runs seen. -/
structure Reached (m : Matcher α) (w : Window) (i j : ℕ) (s : Search) : Prop where
  runs : Runs m w (i + 1) j s.runs
  best : ∃ p, Best (m.left w) (m.right w) i j p ∧ s.best = p.shift w.aStart w.bStart

namespace Reached

variable {m : Matcher α} {w : Window} {i j : ℕ} {s : Search} {previous : Array ℕ}

/-- Places that hold other elements are passed over. -/
theorem skip {j' : ℕ} (h : Reached m w i j s) (hi : i < (m.left w).length) (hj : j ≤ j')
    (hj' : j' ≤ (m.right w).length)
    (hother : ∀ k, j ≤ k → k < j' → m.bs[w.bStart + k]? ≠ some (m.left w)[i]) :
    Reached m w i j' s := by
  have hnone : ∀ k, j ≤ k → k < j' → endingAt (m.left w) (m.right w) (i + 1) (k + 1) = 0 := by
    intro k hk hk'
    have hlt : k < (m.right w).length := Nat.lt_of_lt_of_le hk' hj'
    have hne := hother k hk hk'
    rw [getElem?_of_lt_length_window hlt] at hne
    rw [endingAt_succ hi hlt, if_neg fun heq => hne (congrArg some heq.symm)]
  obtain ⟨p, hp, hbest⟩ := h.best
  exact ⟨h.runs.skip hj hnone, p, hp.skip hj hnone, hbest⟩

/-- A place that holds the same element is visited. -/
theorem visit (hprevious : Runs m w i (m.right w).length previous) (h : Reached m w i j s)
    (hi : i < (m.left w).length) (hj : j < (m.right w).length)
    (heq : (m.left w)[i] = (m.right w)[j]) :
    ∃ s', s.visit previous (w.aStart + i) (w.bStart + j) = some s' ∧ Reached m w i (j + 1) s' := by
  obtain ⟨p, hp, hbest⟩ := h.best
  have hrun : endingAt (m.left w) (m.right w) (i + 1) (j + 1) =
      Search.runBefore previous (w.bStart + j) + 1 := by
    rw [endingAt_succ hi hj, if_pos heq, hprevious.runBefore_eq hj]
  have hleft : endingAt (m.left w) (m.right w) (i + 1) (j + 1) ≤ i + 1 :=
    endingAt_le_left (Nat.succ_le_of_lt hi)
  have hright : endingAt (m.left w) (m.right w) (i + 1) (j + 1) ≤ j + 1 :=
    endingAt_le_right (Nat.succ_le_of_lt hj)
  rw [hrun] at hleft hright
  refine ⟨⟨_, _⟩, ?_, ⟨h.runs.set hj, _, hp.improve hi hj hrun, rfl⟩⟩
  rw [Search.visit, hbest, Block.improve?_shift hleft hright, hrun]
  rfl

/-- All places of an element that are left are visited, skipped or behind the window. -/
theorem visitPlaces {js : List ℕ} {start : ℕ}
    (hprevious : Runs m w i (m.right w).length previous) (hi : i < (m.left w).length)
    (h : Reached m w i (start - w.bStart) s) (hstart : start - w.bStart ≤ (m.right w).length)
    (hjs : PlacesFrom m.bs (m.left w)[i] start js) :
    ∃ s', Search.visitPlaces previous w (w.aStart + i) js s = some s' ∧
      Reached m w i (m.right w).length s' := by
  induction js generalizing s start with
  | nil =>
      refine ⟨s, rfl, h.skip hi hstart (Nat.le_refl _) fun k hk _ hx => ?_⟩
      exact List.not_mem_nil ((hjs.mem_iff _).mpr ⟨by omega, hx⟩)
  | cons j js ih =>
      obtain ⟨hj, hxj⟩ := (hjs.mem_iff j).mp List.mem_cons_self
      rw [Search.visitPlaces]
      split
      · have hzero : j + 1 - w.bStart = start - w.bStart := by omega
        exact ih (hzero ▸ h) (hzero ▸ hstart) hjs.tail
      · rename_i hbefore
        split
        · rename_i hbehind
          refine ⟨s, rfl, h.skip hi hstart (Nat.le_refl _) fun k hk hk' hx => ?_⟩
          have := hjs.first_le (by omega) hx
          have := (lt_of_lt_length_window hk').1
          omega
        · rename_i hinside
          obtain ⟨k, rfl⟩ := Nat.exists_eq_add_of_le (Nat.le_of_not_lt hbefore)
          have hk : k < (m.right w).length := by
            have := (List.getElem?_eq_some_iff.mp hxj).1
            rw [Matcher.right, window, List.length_drop, List.length_take]
            omega
          have hskip : Reached m w i k s :=
            h.skip hi (by omega) (Nat.le_of_lt hk) fun l hl hlk hx => by
              have := hjs.first_le (by omega) hx
              omega
          have heq : (m.left w)[i] = (m.right w)[k] := by
            rw [getElem?_of_lt_length_window hk] at hxj
            exact (Option.some.inj hxj).symm
          obtain ⟨s', hs', hreached⟩ := hskip.visit hprevious hi hk heq
          have hsucc : w.bStart + k + 1 - w.bStart = k + 1 := by omega
          rw [hs']
          exact ih (hsucc ▸ hreached) (hsucc ▸ hk) hjs.tail

end Reached

namespace Matcher

variable {m : Matcher α} {w : Window}

/-- The elements of the window that are left are looked at one after the other. -/
theorem exists_searchFrom {count i : ℕ} {s : Search} {p : Block}
    (hcount : i + count = (m.left w).length) (hruns : Runs m w i (m.right w).length s.runs)
    (hp : Best (m.left w) (m.right w) i 0 p) (hbest : s.best = p.shift w.aStart w.bStart) :
    ∃ q, m.searchFrom w count (w.aStart + i) s = some (q.shift w.aStart w.bStart) ∧
      Best (m.left w) (m.right w) (m.left w).length 0 q := by
  induction count generalizing i s p with
  | zero =>
      obtain rfl : i = (m.left w).length := hcount
      exact ⟨p, congrArg some hbest, hp⟩
  | succ count ih =>
      have hi : i < (m.left w).length := by omega
      have hblank : Reached m w i (0 - w.bStart) ⟨s.best, .replicate s.runs.size 0⟩ := by
        rw [Nat.zero_sub]
        exact ⟨hruns.size ▸ .blank m w (i + 1), p, hp, hbest⟩
      obtain ⟨t, ht, htruns, q, hq, htbest⟩ :=
        hblank.visitPlaces hruns hi (by omega) (m.placesFrom (m.left w)[i])
      obtain ⟨r, hr, hlast⟩ := ih (by omega) htruns hq.nextRow htbest
      refine ⟨r, ?_, hlast⟩
      rw [searchFrom, getElem?_of_lt_length_window hi]
      simp only [Option.bind_eq_bind, Option.bind_some, ht]
      exact hr

/-- In a window that ends within the first sequence the search does not fail, and it finds the best
block of the two stretches. -/
theorem exists_best (h : w.aStop ≤ m.as.length) :
    ∃ p, m.search? w = some (p.shift w.aStart w.bStart) ∧
      Best (m.left w) (m.right w) (m.left w).length 0 p := by
  have hcount : 0 + (w.aStop - w.aStart) = (m.left w).length := by
    rw [Matcher.left, window, List.length_drop, List.length_take]
    omega
  exact exists_searchFrom (i := 0) hcount (.first m w) (.start _ _) rfl

/-- A search that does not fail reads no place behind the end of the first sequence. -/
theorem le_length_of_searchFrom {count i : ℕ} {s : Search} {found : Block}
    (h : m.searchFrom w count i s = some found) : count = 0 ∨ i + count ≤ m.as.length := by
  induction count generalizing i s with
  | zero => exact .inl rfl
  | succ count ih =>
      obtain ⟨x, hx, h⟩ := Option.bind_eq_some_iff.mp h
      obtain ⟨t, -, h⟩ := Option.bind_eq_some_iff.mp h
      have := (List.getElem?_eq_some_iff.mp hx).1
      right
      rcases ih h with rfl | h
      · omega
      · omega

/-- A search fails just where it would read behind the end of the first sequence. -/
theorem search?_eq_none_iff :
    m.search? w = none ↔ w.aStart < w.aStop ∧ m.as.length < w.aStop := by
  constructor
  · intro h
    constructor
    · by_contra hle
      have hcount : w.aStop - w.aStart = 0 := by omega
      rw [search?, hcount] at h
      exact Option.some_ne_none _ h
    · by_contra hle
      obtain ⟨p, hp, -⟩ := exists_best (Nat.le_of_not_lt hle)
      exact Option.some_ne_none _ (hp.symm.trans h)
  · rintro ⟨hstart, hstop⟩
    refine Option.eq_none_iff_forall_ne_some.mpr fun found h => ?_
    rcases le_length_of_searchFrom h with hle | hle
    · omega
    · omega

theorem longest_of_search?_eq {found : Block} (h : m.search? w = some found) :
    m.longest w = found := by
  rw [longest, h, Option.getD_some]

end Matcher

/-! ## The longest common block of a window -/

namespace Window

variable {as bs : List α} {w : Window} {p : Block}

/-- The longest common block of the two stretches is the best one, by its places in the whole
sequences. -/
theorem exists_longest_eq_shift (bs : List α) (h : w.aStop ≤ as.length) :
    ∃ p, w.longest as bs = p.shift w.aStart w.bStart ∧
      Best (window w.aStart w.aStop as) (window w.bStart w.bStop bs)
        (window w.aStart w.aStop as).length 0 p := by
  obtain ⟨p, hp, hbest⟩ := Matcher.exists_best (m := .ofLists as bs) (w := w) h
  exact ⟨p, Matcher.longest_of_search?_eq hp, hbest⟩

theorem search?_eq_some (h : w.aStop ≤ as.length) :
    (Matcher.ofLists as bs).search? w = some (w.longest as bs) := by
  obtain ⟨p, hp, -⟩ := Matcher.exists_best (m := .ofLists as bs) h
  rw [hp, longest_eq, Matcher.longest_of_search?_eq hp]

theorem aStart_longest_bounds (h : (w.longest as bs).size ≠ 0) :
    w.aStart ≤ (w.longest as bs).aStart ∧ (w.longest as bs).aStart < w.aStop :=
  Matcher.aStart_longest_bounds h

/-- A window with a longest common block that is not empty ends within the first sequence. -/
theorem aStop_le_of_longest_ne_zero (h : (w.longest as bs).size ≠ 0) : w.aStop ≤ as.length := by
  obtain ⟨hstart, hstop⟩ := aStart_longest_bounds h
  by_contra hlt
  have hnone : (Matcher.ofLists as bs).search? w = none :=
    Matcher.search?_eq_none_iff.mpr ⟨Nat.lt_of_le_of_lt hstart hstop, Nat.lt_of_not_le hlt⟩
  rw [longest_eq, Matcher.longest, hnone] at h
  exact h rfl

theorem common_longest (h : (w.longest as bs).size ≠ 0) :
    Common as bs (w.longest as bs) ∧ w.Holds (w.longest as bs) := by
  obtain ⟨p, hp, hbest⟩ := exists_longest_eq_shift bs (aStop_le_of_longest_ne_zero h)
  rw [hp] at h ⊢
  exact Common.of_window (Nat.pos_of_ne_zero h) hbest.common

theorem size_le_longest (hw : w.aStop ≤ as.length) (hp : Common as bs p) (hin : w.Holds p) :
    p.size ≤ (w.longest as bs).size := by
  obtain ⟨q, hq, hbest⟩ := exists_longest_eq_shift bs hw
  have hle := hbest.size_le (hp.to_window hin)
  rw [hq]
  exact hle

/-- Of the common blocks of its size the longest one starts first. -/
theorem startsFirst_longest (hw : w.aStop ≤ as.length) (hp : Common as bs p) (hin : w.Holds p)
    (hs : p.size = (w.longest as bs).size) : (w.longest as bs).StartsFirst p := by
  obtain ⟨q, hq, hbest⟩ := exists_longest_eq_shift bs hw
  rw [hq] at hs ⊢
  have hfirst := hbest.startsFirst (hp.to_window hin) hs
  have := hin.aStart
  have := hin.bStart
  simp only [Block.StartsFirst, Block.shift] at hfirst ⊢
  omega

/-- A window without a common block has its start as longest common block. -/
theorem longest_eq_first (hw : w.aStop ≤ as.length) (h : (w.longest as bs).size = 0) :
    w.longest as bs = w.first := by
  obtain ⟨q, hq, hbest⟩ := exists_longest_eq_shift bs hw
  rw [hq] at h ⊢
  rw [hbest.nothing h]
  rfl

/-- A window without a common block has no common element. -/
theorem disjoint_of_longest_eq_zero (hw : w.aStop ≤ as.length)
    (h : (w.longest as bs).size = 0) :
    (window w.aStart w.aStop as).Disjoint (window w.bStart w.bStop bs) := by
  intro x hx hx'
  obtain ⟨i, ha, ha', hi⟩ := mem_window.mp hx
  obtain ⟨j, hb, hb', hj⟩ := mem_window.mp hx'
  have := size_le_longest hw (common_of_getElem? hi hj) ⟨ha, ha', hb, hb'⟩
  rw [h] at this
  exact absurd this (Nat.not_succ_le_zero 0)

theorem longest_eq_first_iff (hw : w.aStop ≤ as.length) :
    w.longest as bs = w.first ↔
      (window w.aStart w.aStop as).Disjoint (window w.bStart w.bStop bs) := by
  refine ⟨fun h => disjoint_of_longest_eq_zero hw (h ▸ rfl), fun h => longest_eq_first hw ?_⟩
  by_contra hsize
  obtain ⟨⟨hleft, -, hagree⟩, ha, ha', hb, hb'⟩ := common_longest hsize
  have hpos : 0 < (w.longest as bs).size := Nat.pos_of_ne_zero hsize
  -- The first element of the block lies in both stretches.
  have hx := List.getElem?_eq_getElem (l := as) (i := (w.longest as bs).aStart) (by omega)
  have hx' := hagree 0 hpos
  rw [Nat.add_zero, Nat.add_zero, hx] at hx'
  exact h (mem_window.mpr ⟨_, ha, by omega, hx⟩) (mem_window.mpr ⟨_, hb, by omega, hx'.symm⟩)

/-- What the search of a window returns is a common block of the window, unless there is none, not
even an empty one: then it is the start of the window. -/
theorem longest_mem_or (bs : List α) (hw : w.aStop ≤ as.length) :
    (Common as bs (w.longest as bs) ∧ w.Holds (w.longest as bs)) ∨
      (w.longest as bs = w.first ∧ ∀ p, Common as bs p → ¬ w.Holds p) := by
  by_cases hsize : (w.longest as bs).size = 0
  · rw [longest_eq_first hw hsize]
    by_cases hnone : ∀ p, Common as bs p → ¬ w.Holds p
    · exact .inr ⟨rfl, hnone⟩
    · push Not at hnone
      obtain ⟨p, ⟨hleft, hright, -⟩, ha, ha', hb, hb'⟩ := hnone
      refine .inl ⟨⟨?_, ?_, fun k hk => absurd hk (Nat.not_lt_zero k)⟩,
        ⟨Nat.le_refl _, ?_, Nat.le_refl _, ?_⟩⟩ <;> simp only [first] <;> omega
  · exact .inl (common_longest hsize)

end Window

def longest (as bs : List α) : Block := Window.longest as bs (.whole as bs)

theorem best_longest (as bs : List α) : Best as bs as.length 0 (longest as bs) := by
  have hwhole : ∀ xs : List α, window 0 xs.length xs = xs := fun xs => by
    rw [window, List.take_length, List.drop_zero]
  obtain ⟨p, hp, hbest⟩ :=
    Window.exists_longest_eq_shift bs (w := .whole as bs) (Nat.le_refl as.length)
  have hshift : longest as bs = p := by
    rw [longest, hp]
    simp [Block.shift, Window.whole]
  simp only [Window.whole, hwhole] at hbest
  exact hshift ▸ hbest

theorem common_longest (as bs : List α) : Common as bs (longest as bs) :=
  (best_longest as bs).common

/-- No common block is longer than the one found. -/
theorem Common.size_le_longest {as bs : List α} {block : Block} (h : Common as bs block) :
    block.size ≤ (longest as bs).size :=
  (best_longest as bs).size_le h

/-! ## The search in two stretches -/

/-- The search for the longest common block of two stretches asks for no place behind the end of the
first sequence and makes no negative difference, so it does return a block.  That is a common block
of the two stretches, unless they have none, not even an empty one; no other one is longer, and of
those of its size it is the one that starts first in the first sequence, then first in the second.
It is empty, at the start of the stretches, just where they share no element.  The second stretch
may end behind its sequence, and either may be empty or end before it starts. -/
theorem longestIn_optimal (as bs : List α) (aStart aStop bStart bStop : ℕ)
    (h : aStop ≤ as.length) :
    ∃ found, (Matcher.ofLists as bs).search? ⟨aStart, aStop, bStart, bStop⟩ = some found ∧
      longestIn as bs aStart aStop bStart bStop = found ∧
      ((Common as bs found ∧
          Window.Holds ⟨aStart, aStop, bStart, min bStop bs.length⟩ found) ∨
        (found = ⟨aStart, bStart, 0⟩ ∧ ∀ p, Common as bs p →
          ¬ Window.Holds ⟨aStart, aStop, bStart, min bStop bs.length⟩ p)) ∧
      (∀ p, Common as bs p → Window.Holds ⟨aStart, aStop, bStart, min bStop bs.length⟩ p →
        p.size ≤ found.size ∧ (p.size = found.size → found.aStart < p.aStart ∨
          (found.aStart = p.aStart ∧ found.bStart ≤ p.bStart))) ∧
      (found = ⟨aStart, bStart, 0⟩ ↔
        (window aStart aStop as).Disjoint (window bStart (min bStop bs.length) bs)) := by
  have hw : (Window.mk aStart aStop bStart bStop).aStop ≤ as.length := h
  refine ⟨_, Window.search?_eq_some hw, rfl, ?_, fun p hp hin => ?_, ?_⟩
  · rcases Window.longest_mem_or bs hw with ⟨hfound, hin⟩ | ⟨hfirst, hnone⟩
    · exact .inl ⟨hfound, (hfound.holds_min_iff ..).mpr hin⟩
    · exact .inr ⟨hfirst, fun p hp => mt (hp.holds_min_iff ..).mp (hnone p hp)⟩
  · have hin := (hp.holds_min_iff ..).mp hin
    exact ⟨Window.size_le_longest hw hp hin, Window.startsFirst_longest hw hp hin⟩
  · rw [window_min]
    exact Window.longest_eq_first_iff hw

/-- Of four blocks of the same size the first one is found, and the second stretch ends behind its
sequence. -/
theorem longestIn_optimal_tie :
    5 ≤ ['a', 'b', '-', 'a', 'b'].length ∧
      longestIn ['a', 'b', '-', 'a', 'b'] ['+', 'a', 'b', '+', 'a', 'b'] 0 5 0 9 = ⟨0, 1, 2⟩ ∧
      ∀ p, Common ['a', 'b', '-', 'a', 'b'] ['+', 'a', 'b', '+', 'a', 'b'] p →
        Window.Holds ⟨0, 5, 0, 6⟩ p → p.size ≤ 2 := by
  have hfound :
      longestIn ['a', 'b', '-', 'a', 'b'] ['+', 'a', 'b', '+', 'a', 'b'] 0 5 0 9 = ⟨0, 1, 2⟩ := by
    decide
  obtain ⟨found, -, rfl, -, hlargest, -⟩ :=
    longestIn_optimal ['a', 'b', '-', 'a', 'b'] ['+', 'a', 'b', '+', 'a', 'b'] 0 5 0 9 (by decide)
  rw [hfound] at hlargest
  exact ⟨by decide, hfound, fun p hp hin => (hlargest p hp hin).1⟩

end RenderGate.Similarity
