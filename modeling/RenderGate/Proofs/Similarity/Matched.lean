import Mathlib.Data.Nat.SuccPred
import Mathlib.Order.SuccPred.Archimedean
import RenderGate.Proofs.Similarity.Alignment

/-!
# What an alignment matches

The elements in the blocks of an alignment, put together, are a common subsequence of the two
sequences (`exists_sublist_length_eq_matched`), so no more are matched than the longest common
subsequence has.  The longest common block is one of the blocks, so no fewer are matched than it
has.  Nothing is matched only where there is nothing to be matched, and everything only of equal
sequences.
-/

namespace RenderGate.Similarity

variable {α : Type}

/-- The elements of a sequence that lie in blocks, given where a block starts in it. -/
def covered (start : Block → ℕ) (xs : List α) (blocks : List Block) : List α :=
  blocks.flatMap fun p => window (start p) (start p + p.size) xs

theorem window_append_drop {start stop : ℕ} (h : start ≤ stop) (xs : List α) :
    window start stop xs ++ xs.drop stop = xs.drop start := by
  rw [window, List.drop_take, ← Nat.add_sub_cancel' h, ← List.drop_drop, Nat.add_sub_cancel_left,
    List.take_append_drop]

theorem covered_sublist_drop {start : Block → ℕ} (xs : List α) {blocks : List Block}
    (h : blocks.Pairwise fun p q => start p + p.size ≤ start q) {i : ℕ}
    (hi : ∀ p ∈ blocks, i ≤ start p) : (covered start xs blocks).Sublist (xs.drop i) := by
  induction blocks generalizing i with
  | nil => exact List.nil_sublist _
  | cons p ps ih =>
      obtain ⟨hp, hps⟩ := List.pairwise_cons.mp h
      refine .trans ?_ (List.drop_sublist_drop_left xs (hi p List.mem_cons_self))
      rw [← window_append_drop (Nat.le_add_right (start p) p.size)]
      exact (ih hps hp).append_left _

/-- Blocks that follow each other cover a subsequence. -/
theorem covered_sublist {start : Block → ℕ} (xs : List α) {blocks : List Block}
    (h : blocks.Pairwise fun p q => start p + p.size ≤ start q) :
    (covered start xs blocks).Sublist xs :=
  covered_sublist_drop xs h (i := 0) fun _ _ => Nat.zero_le _

theorem length_covered {start : Block → ℕ} {xs : List α} {blocks : List Block}
    (h : ∀ p ∈ blocks, start p + p.size ≤ xs.length) :
    (covered start xs blocks).length =
      blocks.foldr (fun block count => block.size + count) 0 := by
  induction blocks with
  | nil => rfl
  | cons p ps ih =>
      have hp := h p List.mem_cons_self
      rw [List.foldr_cons, ← ih fun q hq => h q (List.mem_cons_of_mem p hq), covered,
        List.flatMap_cons, List.length_append, ← covered, window, List.length_drop,
        List.length_take_of_le hp, Nat.add_sub_cancel_left]

theorem size_le_foldr {blocks : List Block} {p : Block} (h : p ∈ blocks) :
    p.size ≤ blocks.foldr (fun block count => block.size + count) 0 := by
  induction blocks with
  | nil => exact absurd h List.not_mem_nil
  | cons q qs ih =>
      rw [List.foldr_cons]
      rcases List.mem_cons.mp h with rfl | h
      · exact Nat.le_add_right _ _
      · exact (ih h).trans (Nat.le_add_left _ _)

theorem Common.window_eq {as bs : List α} {p : Block} (h : Common as bs p) :
    window p.aStart (p.aStart + p.size) as = window p.bStart (p.bStart + p.size) bs := by
  refine List.ext_getElem? fun k => ?_
  rw [getElem?_window, getElem?_window]
  by_cases hk : k < p.size
  · rw [if_pos (Nat.add_lt_add_left hk _), if_pos (Nat.add_lt_add_left hk _)]
    exact h.agree k hk
  · rw [if_neg (by omega), if_neg (by omega)]

/-- Common blocks cover the same in both sequences. -/
theorem covered_eq_covered {as bs : List α} {blocks : List Block}
    (h : ∀ p ∈ blocks, Common as bs p) :
    covered Block.aStart as blocks = covered Block.bStart bs blocks := by
  induction blocks with
  | nil => rfl
  | cons p ps ih =>
      rw [covered, covered, List.flatMap_cons, List.flatMap_cons,
        (h p List.mem_cons_self).window_eq]
      exact congrArg _ (ih fun q hq => h q (List.mem_cons_of_mem p hq))

/-- The lengths of what occurs in both sequences without a gap. -/
def commonBlockLengths (as bs : List α) : Set ℕ :=
  {n | ∃ cs : List α, cs <:+: as ∧ cs <:+: bs ∧ cs.length = n}

/-- The lengths of what occurs in both sequences, with or without gaps. -/
def commonSubsequenceLengths (as bs : List α) : Set ℕ :=
  {n | ∃ cs : List α, cs.Sublist as ∧ cs.Sublist bs ∧ cs.length = n}

theorem window_infix (start stop : ℕ) (xs : List α) : window start stop xs <:+: xs :=
  (List.drop_suffix start _).isInfix.trans (List.take_prefix stop xs).isInfix

theorem getElem?_append_append {s cs t : List α} {k : ℕ} (hk : k < cs.length) :
    (s ++ cs ++ t)[s.length + k]? = cs[k]? := by
  rw [List.append_assoc, List.getElem?_append_right (Nat.le_add_right _ _),
    Nat.add_sub_cancel_left, List.getElem?_append_left hk]

/-- What occurs in both sequences without a gap is a common block. -/
theorem exists_common_of_infix {as bs cs : List α} (has : cs <:+: as) (hbs : cs <:+: bs) :
    ∃ p : Block, Common as bs p ∧ p.size = cs.length := by
  obtain ⟨s, t, rfl⟩ := has
  obtain ⟨u, v, rfl⟩ := hbs
  refine ⟨⟨s.length, u.length, cs.length⟩, ⟨?_, ?_, fun k hk => ?_⟩, rfl⟩
  · rw [List.length_append, List.length_append]
    exact Nat.le_add_right _ _
  · rw [List.length_append, List.length_append]
    exact Nat.le_add_right _ _
  · rw [getElem?_append_append hk, getElem?_append_append hk]

theorem Common.size_mem {as bs : List α} {p : Block} (h : Common as bs p) :
    p.size ∈ commonBlockLengths as bs := by
  refine ⟨window p.aStart (p.aStart + p.size) as, window_infix _ _ as, ?_, ?_⟩
  · rw [h.window_eq]
    exact window_infix _ _ bs
  · rw [window, List.length_drop, List.length_take_of_le h.left, Nat.add_sub_cancel_left]

theorem exists_isGreatest_commonSubsequenceLengths (as bs : List α) :
    ∃ n, IsGreatest (commonSubsequenceLengths as bs) n := by
  refine BddAbove.exists_isGreatest_of_nonempty ⟨as.length, ?_⟩ ⟨0, [], ?_⟩
  · rintro n ⟨cs, has, -, rfl⟩
    exact has.length_le
  · exact ⟨List.nil_sublist as, List.nil_sublist bs, rfl⟩

theorem common_self (as : List α) : Common as as ⟨0, 0, as.length⟩ :=
  ⟨(Nat.zero_add _).le, (Nat.zero_add _).le, fun _ _ => rfl⟩

variable [DecidableEq α]

/-- The longest common block is as long as anything that occurs in both sequences without a gap. -/
theorem isGreatest_longest (as bs : List α) :
    IsGreatest (commonBlockLengths as bs) (longest as bs).size := by
  refine ⟨(common_longest as bs).size_mem, ?_⟩
  rintro n ⟨cs, has, hbs, rfl⟩
  obtain ⟨p, hp, hsize⟩ := exists_common_of_infix has hbs
  rw [← hsize]
  exact hp.size_le_longest

/-- What is matched is a common subsequence. -/
theorem exists_sublist_length_eq_matched (as bs : List α) :
    ∃ cs : List α, cs.Sublist as ∧ cs.Sublist bs ∧ cs.length = matched as bs := by
  have haligned := Window.aligned_align as bs (.whole as bs) le_rfl
  have hcommon : ∀ p ∈ (Window.whole as bs).align as bs, Common as bs p :=
    fun p hp => (haligned.inside p hp).2.1
  refine ⟨covered Block.aStart as ((Window.whole as bs).align as bs), ?_, ?_, ?_⟩
  · exact covered_sublist as (haligned.pairwise.imp And.left)
  · rw [covered_eq_covered hcommon]
    exact covered_sublist bs (haligned.pairwise.imp And.right)
  · rw [length_covered fun p hp => (hcommon p hp).left, matched, matchingBlocks_eq_align]

/-- An alignment matches no more elements than either sequence has. -/
theorem matched_le (as bs : List α) :
    matched as bs ≤ as.length ∧ matched as bs ≤ bs.length := by
  obtain ⟨cs, has, hbs, hlen⟩ := exists_sublist_length_eq_matched as bs
  rw [← hlen]
  exact ⟨has.length_le, hbs.length_le⟩

/-- No common block is longer than what is matched. -/
theorem Common.size_le_matched {as bs : List α} {p : Block} (h : Common as bs p) :
    p.size ≤ matched as bs := by
  have hle : p.size ≤ ((Window.whole as bs).longest as bs).size :=
    Window.size_le_longest le_rfl h
      ⟨Nat.zero_le _, h.left, Nat.zero_le _, h.right⟩
  by_cases hsize : ((Window.whole as bs).longest as bs).size = 0
  · rw [hsize] at hle
    exact hle.trans (Nat.zero_le _)
  · refine hle.trans (size_le_foldr ?_)
    rw [matchingBlocks_eq_align, Window.align_of_longest_ne_zero hsize]
    exact List.mem_append_right _ List.mem_cons_self

/-- Nothing is matched only where the sequences share no element. -/
theorem matched_eq_zero_iff (as bs : List α) : matched as bs = 0 ↔ as.Disjoint bs := by
  constructor
  · intro h x hx hx'
    obtain ⟨i, hi⟩ := List.mem_iff_getElem?.mp hx
    obtain ⟨j, hj⟩ := List.mem_iff_getElem?.mp hx'
    have := (common_of_getElem? hi hj).size_le_matched
    rw [h] at this
    exact absurd this (Nat.not_succ_le_zero 0)
  · intro h
    obtain ⟨cs, has, hbs, hlen⟩ := exists_sublist_length_eq_matched as bs
    rw [← hlen, List.length_eq_zero_iff, List.eq_nil_iff_forall_not_mem]
    exact fun x hx => h (has.subset hx) (hbs.subset hx)

theorem matched_self (as : List α) : matched as as = as.length :=
  (matched_le as as).1.antisymm (common_self as).size_le_matched

/-- Only equal sequences are matched completely. -/
theorem matched_add_matched_eq_iff (as bs : List α) :
    matched as bs + matched as bs = as.length + bs.length ↔ as = bs := by
  constructor
  · intro h
    obtain ⟨hleft, hright⟩ := matched_le as bs
    obtain ⟨cs, has, hbs, hlen⟩ := exists_sublist_length_eq_matched as bs
    exact (has.eq_of_length (by omega)).symm.trans (hbs.eq_of_length (by omega))
  · rintro rfl
    rw [matched_self]

end RenderGate.Similarity
