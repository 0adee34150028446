import RenderGate.Proofs.Similarity.Search
import Mathlib.Data.List.Chain
import Mathlib.Data.List.Nodup

/-!
# The alignment of two sequences

An alignment is defined by recursion over windows: the longest common block of a window, between the
alignments of the parts to its left and to its right.  Working through a stack of windows finds
these blocks, and sorting puts them in order (`matchingBlocks_eq_align`).  The recursion shows what
an alignment is like (`aligned_align`): its blocks follow each other in both sequences, they could
not be joined, and between them nothing more could be matched.
-/

namespace RenderGate.Similarity

variable {α : Type}

namespace Block

/-- The first block ends, in either sequence, before the second one starts or where it starts. -/
def Precedes (p q : Block) : Prop :=
  p.aStart + p.size ≤ q.aStart ∧ p.bStart + p.size ≤ q.bStart

/-- The second block starts where the first one ends, in both sequences. -/
def Adjoins (p q : Block) : Prop :=
  p.aStart + p.size = q.aStart ∧ p.bStart + p.size = q.bStart

theorem Precedes.trans {p q r : Block} (hpq : p.Precedes q) (hqr : q.Precedes r) :
    p.Precedes r := by
  unfold Precedes at *
  omega

theorem StartsFirst.trans {p q r : Block} (hpq : p.StartsFirst q) (hqr : q.StartsFirst r) :
    p.StartsFirst r := by
  unfold StartsFirst at *
  omega

theorem startsFirst_total (p q : Block) : p.StartsFirst q ∨ q.StartsFirst p := by
  unfold StartsFirst
  omega

end Block

/-- What lies between two blocks in one sequence shares no element with what lies between them in
the other. -/
def Bare (as bs : List α) (p q : Block) : Prop :=
  (window (p.aStart + p.size) q.aStart as).Disjoint (window (p.bStart + p.size) q.bStart bs)

namespace Window

def last (w : Window) : Block := ⟨w.aStop, w.bStop, 0⟩

/-- The blocks align the window: they are common blocks in the window that follow each other but do
not adjoin, and before, between and after them nothing is left to be matched. -/
structure Aligned (as bs : List α) (w : Window) (blocks : List Block) : Prop where
  inside : ∀ p ∈ blocks, 0 < p.size ∧ Common as bs p ∧ w.Holds p
  ordered : blocks.IsChain fun p q => p.Precedes q ∧ ¬ p.Adjoins q
  bare : (w.first :: (blocks ++ [w.last])).IsChain (Bare as bs)

namespace Aligned

variable {as bs : List α} {w : Window} {blocks : List Block}

/-- Blocks of an alignment that are not next to each other are in order as well. -/
theorem pairwise (h : w.Aligned as bs blocks) : blocks.Pairwise Block.Precedes := by
  have : Trans Block.Precedes Block.Precedes Block.Precedes := ⟨Block.Precedes.trans⟩
  exact List.isChain_iff_pairwise.mp (h.ordered.imp fun _ _ hpq => hpq.1)

theorem increasing (h : w.Aligned as bs blocks) :
    blocks.Pairwise fun p q => p.aStart < q.aStart := by
  refine h.pairwise.imp_of_mem fun {p q} hp _ hpq => ?_
  have := (h.inside p hp).1
  have := hpq.1
  omega

end Aligned

end Window

/-- Two blocks of which one adjoins the other are one longer block. -/
theorem Common.join {as bs : List α} {p q : Block} (hp : Common as bs p) (hq : Common as bs q)
    (h : p.Adjoins q) : Common as bs ⟨p.aStart, p.bStart, p.size + q.size⟩ := by
  obtain ⟨ha, hb⟩ := h
  refine ⟨?_, ?_, fun k hk => ?_⟩
  · have := hq.left
    simp only
    omega
  · have := hq.right
    simp only
    omega
  · simp only at hk ⊢
    by_cases hkp : k < p.size
    · exact hp.agree k hkp
    · have := hq.agree (k - p.size) (by omega)
      rw [← ha, ← hb] at this
      rwa [show p.aStart + p.size + (k - p.size) = p.aStart + k by omega,
        show p.bStart + p.size + (k - p.size) = p.bStart + k by omega] at this

variable [DecidableEq α]

namespace Window

variable {as bs : List α} {w : Window} {p : Block}

/-! ## The recursive definition -/

/-- The blocks of a window in increasing order: the longest common block between those of the parts
to its left and to its right. -/
def align (as bs : List α) (w : Window) : List Block :=
  let found := w.longest as bs
  if _ : found.size = 0 then []
  else align as bs (w.before found) ++ found :: align as bs (w.after found)
termination_by w.aStop - w.aStart
decreasing_by
  · have := aStart_longest_bounds ‹_›
    simp only [before]
    omega
  · have hsize : (w.longest as bs).size ≠ 0 := ‹_›
    have := aStart_longest_bounds hsize
    simp only [after]
    omega

theorem align_of_longest_eq_zero (h : (w.longest as bs).size = 0) : w.align as bs = [] := by
  rw [align]
  exact dif_pos h

theorem align_of_longest_ne_zero (h : (w.longest as bs).size ≠ 0) : w.align as bs =
    (w.before (w.longest as bs)).align as bs ++
      w.longest as bs :: (w.after (w.longest as bs)).align as bs := by
  rw [align]
  exact dif_neg h

/-- A window without elements of one of the sequences has no blocks. -/
theorem align_of_not_inhabited (h : ¬ w.Inhabited) : w.align as bs = [] := by
  by_cases hsize : (w.longest as bs).size = 0
  · exact align_of_longest_eq_zero hsize
  · obtain ⟨-, ha, ha', hb, hb'⟩ := common_longest hsize
    exact absurd ⟨by omega, by omega⟩ h

/-- The parts beside a block have the blocks of the part on the right and then of the part on the
left, also where a part was left out. -/
theorem flatMap_beside (as bs : List α) (w : Window) (block : Block) :
    (w.beside block).flatMap (align as bs) =
      (w.after block).align as bs ++ (w.before block).align as bs := by
  unfold beside
  rw [List.flatMap_append]
  congr 1
  · split
    · exact List.flatMap_singleton _ _
    · rename_i h
      rw [align_of_not_inhabited h, List.flatMap_nil]
  · split
    · exact List.flatMap_singleton _ _
    · rename_i h
      rw [align_of_not_inhabited h, List.flatMap_nil]

end Window

theorem pairwise_matchingBlocks (as bs : List α) :
    (matchingBlocks as bs).Pairwise Block.StartsFirst := by
  refine (List.pairwise_mergeSort (fun p q r hpq hqr => ?_) (fun p q => ?_) _).imp
    fun h => of_decide_eq_true h
  · exact decide_eq_true ((of_decide_eq_true hpq).trans (of_decide_eq_true hqr))
  · rw [Bool.or_eq_true, decide_eq_true_eq, decide_eq_true_eq]
    exact Block.startsFirst_total p q

/-- The windows on a stack lead to the blocks of their alignments. -/
theorem drain_perm (as bs : List α) (pending : List Window) :
    (drain (.ofLists as bs) pending).Perm (pending.flatMap (Window.align as bs)) := by
  induction pending using drain.induct (.ofLists as bs) with
  | case1 => rw [drain, List.flatMap_nil]
  | case2 w pending found h ih =>
      rw [drain, dif_pos h, List.flatMap_cons, Window.align_of_longest_eq_zero h]
      exact ih
  | case3 w pending found h ih =>
      rw [List.flatMap_append, Window.flatMap_beside] at ih
      rw [drain, dif_neg h, List.flatMap_cons, Window.align_of_longest_ne_zero h]
      exact (ih.cons found).trans
        (((List.perm_append_comm.cons found).trans List.perm_middle.symm).append_right _)

/-! ## What an alignment is like -/

theorem isChain_concat_congr {β : Type} {R : β → β → Prop} {l : List β} {x y : β}
    (h : (l ++ [x]).IsChain R) (hxy : ∀ p, R p x → R p y) : (l ++ [y]).IsChain R := by
  obtain ⟨hl, -, hx⟩ := List.isChain_append.mp h
  refine List.isChain_append.mpr ⟨hl, .singleton y, fun p hp z hz => ?_⟩
  obtain rfl : y = z := Option.some.inj hz
  exact hxy p (hx p hp x rfl)

namespace Window

variable {as bs : List α} {w : Window} {p q : Block}

/-- No blocks of a window that adjoin are together longer than its longest common block. -/
theorem size_add_size_le_longest (hw : w.aStop ≤ as.length) (hp : Common as bs p)
    (hq : Common as bs q) (hwp : w.Holds p) (hwq : w.Holds q) (h : p.Adjoins q) :
    p.size + q.size ≤ (w.longest as bs).size := by
  have hstop := hwq.aStop
  have hstop' := hwq.bStop
  rw [← h.1, Nat.add_assoc] at hstop
  rw [← h.2, Nat.add_assoc] at hstop'
  exact size_le_longest hw (hp.join hq h) ⟨hwp.aStart, hstop, hwp.bStart, hstop'⟩

theorem Holds.of_before {block : Block} (hblock : w.Holds block) (h : (w.before block).Holds p) :
    w.Holds p ∧ p.Precedes block := by
  obtain ⟨ha, ha', hb, hb'⟩ := h
  have := hblock.aStop
  have := hblock.bStop
  simp only [before] at ha ha' hb hb'
  exact ⟨⟨ha, by omega, hb, by omega⟩, ha', hb'⟩

theorem Holds.of_after {block : Block} (hblock : w.Holds block) (h : (w.after block).Holds p) :
    w.Holds p ∧ block.Precedes p := by
  obtain ⟨ha, ha', hb, hb'⟩ := h
  have := hblock.aStart
  have := hblock.bStart
  simp only [after] at ha ha' hb hb'
  exact ⟨⟨by omega, ha', by omega, hb'⟩, ha, hb⟩

/-- Alignments of the parts beside the longest common block make up, with that block, an alignment
of the window. -/
theorem Aligned.append {left right : List Block} (h : (w.longest as bs).size ≠ 0)
    (hleft : (w.before (w.longest as bs)).Aligned as bs left)
    (hright : (w.after (w.longest as bs)).Aligned as bs right) :
    w.Aligned as bs (left ++ w.longest as bs :: right) := by
  obtain ⟨hfound, hw⟩ := common_longest h
  have hstop := aStop_le_of_longest_ne_zero h
  refine ⟨fun p hp => ?_, ?_, ?_⟩
  · rcases List.mem_append.mp hp with hp | hp
    · obtain ⟨hsize, hcommon, hin⟩ := hleft.inside p hp
      exact ⟨hsize, hcommon, (hw.of_before hin).1⟩
    · rcases List.mem_cons.mp hp with rfl | hp
      · exact ⟨Nat.pos_of_ne_zero h, hfound, hw⟩
      · obtain ⟨hsize, hcommon, hin⟩ := hright.inside p hp
        exact ⟨hsize, hcommon, (hw.of_after hin).1⟩
  · -- Blocks that adjoined the longest common block would make up a longer one with it.
    refine hleft.ordered.append (hright.ordered.cons fun q hq => ?_) fun p hp q hq => ?_
    · obtain ⟨hsize, hcommon, hin⟩ := hright.inside q (List.mem_of_mem_head? hq)
      obtain ⟨hin, hprecedes⟩ := hw.of_after hin
      refine ⟨hprecedes, fun hadjoins => ?_⟩
      have := size_add_size_le_longest hstop hfound hcommon hw hin hadjoins
      omega
    · obtain ⟨hsize, hcommon, hin⟩ := hleft.inside p (List.mem_of_getLast? hp)
      obtain ⟨hin, hprecedes⟩ := hw.of_before hin
      obtain rfl : w.longest as bs = q := Option.some.inj hq
      refine ⟨hprecedes, fun hadjoins => ?_⟩
      have := size_add_size_le_longest hstop hcommon hfound hin hw hadjoins
      omega
  · -- The empty blocks at the inner ends of the parts stand where the longest common block does.
    have hbefore : (w.first :: (left ++ [w.longest as bs])).IsChain (Bare as bs) :=
      isChain_concat_congr (l := w.first :: left) hleft.bare fun p hp => hp
    have hafter : (w.longest as bs :: (right ++ [w.last])).IsChain (Bare as bs) := by
      obtain ⟨hhead, htail⟩ := List.isChain_cons.mp hright.bare
      exact htail.cons fun q hq => hhead q hq
    rw [List.append_assoc, List.cons_append]
    exact List.isChain_cons_split.mpr ⟨hbefore, hafter⟩

theorem aligned_align (as bs : List α) (w : Window) (hw : w.aStop ≤ as.length) :
    w.Aligned as bs (w.align as bs) := by
  induction w using align.induct as bs with
  | case1 w found h =>
      rw [align_of_longest_eq_zero h]
      refine ⟨fun p hp => absurd hp List.not_mem_nil, .nil, ?_⟩
      exact List.isChain_pair.mpr (disjoint_of_longest_eq_zero hw h)
  | case2 w found h ihleft ihright =>
      have hbefore : (w.before (w.longest as bs)).aStop ≤ as.length :=
        Nat.le_of_add_right_le (common_longest h).1.left
      rw [align_of_longest_ne_zero h]
      exact .append h (ihleft hbefore) (ihright hw)

end Window

/-- Sorting puts the blocks that are found in the order of the recursive definition. -/
theorem matchingBlocks_eq_align (as bs : List α) :
    matchingBlocks as bs = (Window.whole as bs).align as bs := by
  have hincreasing := (Window.aligned_align as bs (.whole as bs) le_rfl).increasing
  have hperm : (matchingBlocks as bs).Perm ((Window.whole as bs).align as bs) := by
    have := drain_perm as bs [.whole as bs]
    rw [List.flatMap_singleton] at this
    exact (List.mergeSort_perm _ _).trans this
  refine hperm.eq_of_pairwise (fun p q hp hq hpq hqp => ?_) (pairwise_matchingBlocks as bs)
    (hincreasing.imp .inl)
  -- Of two blocks of an alignment one starts before the other.
  have hnodup : (((Window.whole as bs).align as bs).map Block.aStart).Nodup :=
    List.pairwise_map.mpr (hincreasing.imp Nat.ne_of_lt)
  refine List.inj_on_of_nodup_map hnodup (hperm.mem_iff.mp hp) hq ?_
  unfold Block.StartsFirst at hpq hqp
  omega

/-- An alignment consists of the blocks of the recursive definition.  Each is a common block that is
not empty; one ends before the next one starts in either sequence, and they do not adjoin; and from
the start of the sequences to their end nothing is left to be matched between the blocks. -/
theorem matchingBlocks_aligned (as bs : List α) :
    matchingBlocks as bs = (Window.whole as bs).align as bs ∧
    (∀ p ∈ matchingBlocks as bs, 0 < p.size ∧ Common as bs p) ∧
    (matchingBlocks as bs).IsChain (fun p q => p.Precedes q ∧ ¬ p.Adjoins q) ∧
    (⟨0, 0, 0⟩ :: (matchingBlocks as bs ++ [⟨as.length, bs.length, 0⟩])).IsChain (Bare as bs) := by
  obtain ⟨hinside, hordered, hbare⟩ := Window.aligned_align as bs (.whole as bs) le_rfl
  rw [matchingBlocks_eq_align]
  exact ⟨rfl, fun p hp => ⟨(hinside p hp).1, (hinside p hp).2.1⟩, hordered, hbare⟩

end RenderGate.Similarity
