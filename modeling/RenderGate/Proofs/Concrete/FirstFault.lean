import RenderGate.Lowering.Module
import RenderGate.Proofs.Subtrees
import Mathlib.Data.List.Induction
import Mathlib.Data.List.TakeWhile

/-!
# The fault that is reported

A text whose concrete tree is flagged is refused for the first of its faults in pre-order.  The way
down into the first flagged child never has to turn back, because a flag says that there is a fault
at the node or below it.  The message names a missing token, or quotes a part of one line of the
faulty text, or says nothing more than that the text is not well formed.
-/

namespace RenderGate

namespace Text

/-- The first line of a text is a part of it. -/
theorem firstLine_prefix (cs : List Char) : firstLine cs <+: cs := List.takeWhile_prefix _

theorem newline_not_mem_firstLine (cs : List Char) : '\n' ∉ firstLine cs := by
  intro h
  have hne := List.mem_takeWhile_imp h
  exact of_decide_eq_true hne rfl

/-- Trimming leaves a part of a text. -/
theorem trim_infix (cs : List Char) : trim cs <:+: cs := by
  have hstart : cs.dropWhile isBlank <:+ cs := List.dropWhile_suffix _
  have hstop : trim cs <+: cs.dropWhile isBlank := by
    have h := (List.dropWhile_suffix isBlank (l := (cs.dropWhile isBlank).reverse)).reverse
    rwa [List.reverse_reverse] at h
  exact hstop.isInfix.trans hstart.isInfix

end Text

namespace Concrete

open Rose

namespace Source

/-- The number of line feeds before an offset. -/
def row (s : Source) (offset : ℕ) : ℕ := (s.bytes.data.toList.take offset).count 10

/-- The number of bytes from the last line feed before an offset, or from the start of the text. -/
def column (s : Source) (offset : ℕ) : ℕ :=
  ((s.bytes.data.toList.take offset).reverse.takeWhile (· ≠ 10)).length

theorem foldl_advance (bytes : List UInt8) : bytes.foldl advance ⟨1, 1⟩ =
    ⟨bytes.count 10 + 1, (bytes.reverse.takeWhile (· ≠ 10)).length + 1⟩ := by
  induction bytes using List.reverseRecOn with
  | nil => rfl
  | append_singleton bytes b ih =>
      rw [List.foldl_append, ih, List.foldl_cons, List.foldl_nil, advance, List.count_append,
        List.reverse_append, List.reverse_singleton, List.singleton_append, List.takeWhile_cons]
      by_cases hb : b = 10
      · simp [hb]
      · simp [hb]

/-- Lines and columns are counted from one. -/
theorem position_eq (s : Source) (offset : ℕ) :
    s.position offset = ⟨s.row offset + 1, s.column offset + 1⟩ :=
  foldl_advance _

/-- A quotation of a text: some characters of it that stand on one line. -/
structure Quotes (text quote : String) : Prop where
  part : quote.toList <:+: text.toList
  nonempty : 1 ≤ quote.length
  short : quote.length ≤ 32
  line : '\n' ∉ quote.toList

theorem toList_snippet (text : String) :
    (snippet text).toList = (Text.trim (Text.firstLine text.toList)).take 32 := by
  rw [snippet, String.toList_ofList]
  rfl

/-- What is shown of a faulty text quotes it, unless nothing is shown. -/
theorem quotes_snippet {text : String} (h : (snippet text).isEmpty = false) :
    Quotes text (snippet text) := by
  have hshown : (snippet text).toList <:+: Text.firstLine text.toList := by
    rw [toList_snippet]
    exact (List.take_prefix 32 _).isInfix.trans (Text.trim_infix _)
  refine ⟨hshown.trans (Text.firstLine_prefix _).isInfix, ?_, ?_, fun hline => ?_⟩
  · rw [Nat.one_le_iff_ne_zero, Ne, String.length_eq_zero_iff]
    rintro hempty
    rw [hempty] at h
    exact absurd h (by decide)
  · rw [← String.length_toList, toList_snippet]
    exact List.length_take_le _ _
  · exact Text.newline_not_mem_firstLine _ (hshown.subset hline)

/-- What a message may say of a faulty node: it names a token that is missing, and of any other
node it quotes the text or says nothing. -/
structure Describes (s : Source) (t : Tree) (message : String) : Prop where
  missing_iff : message = "missing `" ++ t.kind ++ "`" ↔ t.info.missing = true
  otherwise : t.info.missing = false → message = "invalid syntax" ∨
    ∃ text quote, s.slice? t = some text ∧ Quotes text quote ∧
      message = "unexpected `" ++ quote ++ "`"

theorem describes_describe (s : Source) (t : Tree) : s.Describes t (s.describe t) := by
  have hother : t.info.missing = false → s.describe t = "invalid syntax" ∨
      ∃ text quote, s.slice? t = some text ∧ Quotes text quote ∧
        s.describe t = "unexpected `" ++ quote ++ "`" := by
    intro hmissing
    rw [describe, hmissing, if_neg Bool.false_ne_true]
    simp only
    cases hshown : (snippet ((s.slice? t).getD "")).isEmpty with
    | true => exact .inl rfl
    | false =>
        right
        cases htext : s.slice? t with
        | none =>
            rw [htext] at hshown
            exact absurd hshown (by decide)
        | some text =>
            rw [htext] at hshown
            exact ⟨text, snippet text, rfl, quotes_snippet hshown, rfl⟩
  refine ⟨⟨fun h => ?_, fun h => if_pos h⟩, hother⟩
  by_contra hmissing
  -- The three forms of a message start with different letters.
  have hletter := congrArg (fun m : String => m.toList.head?) h
  rcases hother (Bool.not_eq_true _ ▸ hmissing) with hm | ⟨_, quote, _, _, hm⟩
  · simp [hm] at hletter
  · simp [hm] at hletter

end Source

namespace Tree

/-- The flags tell the faults: a node is flagged if it is a fault or one lies below it. -/
def FlagsTell (root : Tree) : Prop :=
  ∀ t : Tree, t ∈ root.subtrees →
    (t.info.faulty = true ↔ ∃ u : Tree, u ∈ t.subtrees ∧ u.info.isFault = true)

instance (root : Tree) : Decidable root.FlagsTell :=
  inferInstanceAs (Decidable (∀ t : Tree, t ∈ root.subtrees →
    (t.info.faulty = true ↔ ∃ u : Tree, u ∈ t.subtrees ∧ u.info.isFault = true)))

theorem FlagsTell.child {t c : Tree} (h : t.FlagsTell) (hc : c ∈ t.children) : c.FlagsTell :=
  (forall_mem_subtrees.mp h).2 c hc

/-- There is no fault where there is no flag. -/
theorem FlagsTell.find?_eq_none {t : Tree} (h : t.FlagsTell) (hf : t.info.faulty = false) :
    (t.subtrees.find? fun (u : Tree) => u.info.isFault) = none := by
  refine List.find?_eq_none.mpr fun u hu hfault => ?_
  have hflag := (forall_mem_subtrees.mp h).1.mpr ⟨u, hu, hfault⟩
  rw [hf] at hflag
  exact Bool.false_ne_true hflag

/-- A flag leads to a fault. -/
theorem FlagsTell.exists_find?_eq {t : Tree} (h : t.FlagsTell) (hf : t.info.faulty = true) :
    ∃ u, (t.subtrees.find? fun (u : Tree) => u.info.isFault) = some u := by
  obtain ⟨u, hu, hfault⟩ := (forall_mem_subtrees.mp h).1.mp hf
  exact Option.isSome_iff_exists.mp (List.find?_isSome.mpr ⟨u, hu, hfault⟩)

/-- A missing token has the flag as well. -/
theorem FlagsTell.faulty_of_missing {t : Tree} (h : t.FlagsTell) (hm : t.info.missing = true) :
    t.info.faulty = true := by
  refine (forall_mem_subtrees.mp h).1.mpr ⟨t, ?_, ?_⟩
  · cases t
    exact List.mem_cons_self
  · rw [Info.isFault, hm, Bool.or_true]

mutual

/-- The way down the first flagged children ends at the first fault in pre-order. -/
theorem firstFault?_eq (t : Tree) (h : t.FlagsTell) :
    t.firstFault? = t.subtrees.find? fun (u : Tree) => u.info.isFault :=
  match t with
  | .node i cs => by
      rw [firstFault?, subtrees, List.find?_cons]
      cases hi : i.isFault with
      | true => simp [info, hi]
      | false =>
          simp only [info, value_node, hi]
          exact firstFaultAmong_eq cs fun c hc => h.child hc

theorem firstFaultAmong_eq (cs : List Tree) (h : ∀ c ∈ cs, c.FlagsTell) :
    firstFaultAmong cs = (forestSubtrees cs).find? fun (u : Tree) => u.info.isFault :=
  match cs with
  | [] => rfl
  | c :: cs => by
      have hc := h c List.mem_cons_self
      have hfirst := firstFault?_eq c hc
      have hrest := firstFaultAmong_eq cs fun d hd => h d (List.mem_cons_of_mem c hd)
      rw [firstFaultAmong, forestSubtrees, List.find?_append, hrest, hfirst]
      cases hf : c.info.faulty with
      | true =>
          obtain ⟨u, hu⟩ := hc.exists_find?_eq hf
          rw [hu]
          rfl
      | false =>
          have hmissing : c.info.missing = false := by
            rw [← Bool.not_eq_true]
            intro hm
            rw [hc.faulty_of_missing hm] at hf
            exact Bool.false_ne_true hf.symm
          rw [hmissing, hc.find?_eq_none hf]
          rfl

end

end Tree

end Concrete

open Concrete (Source Tree)

/-- A text whose tree is flagged is never lowered: it is refused for the first of its faults in
pre-order, at the place where that starts, with a message that describes it. -/
theorem parseTree_of_flagged (text : String) {root : Tree} (hflags : root.FlagsTell)
    (hroot : root.info.faulty = true) :
    ∃ (before after : List Tree) (t : Tree) (message : String),
      root.subtrees = before ++ t :: after ∧ t.info.isFault = true ∧
      (∀ u ∈ before, u.info.isFault = false) ∧
      (Source.ofText text).Describes t message ∧
      parseTree text root = .error (.fault (.malformed message)
        ⟨(Source.ofText text).row t.info.start + 1,
          (Source.ofText text).column t.info.start + 1⟩) := by
  obtain ⟨t, ht⟩ := hflags.exists_find?_eq hroot
  obtain ⟨hfault, before, after, hsplit, hbefore⟩ := List.find?_eq_some_iff_append.mp ht
  have hfirst : root.firstFault? = some t := (Tree.firstFault?_eq root hflags).trans ht
  refine ⟨before, after, t, (Source.ofText text).describe t, hsplit, hfault, fun u hu => ?_,
    (Source.ofText text).describes_describe t, ?_⟩
  · exact Bool.not_eq_true' _ ▸ hbefore u hu
  · rw [parseTree, if_pos hroot, Source.faultError, hfirst, ← Source.position_eq]
    rfl

namespace Concrete

def faultyInfo (kind : String) (start stop : ℕ) : Info where
  kind := kind
  named := true
  extra := false
  error := false
  missing := false
  faulty := true
  field := none
  start := start
  stop := stop

/-- The concrete tree of the text `a` and `$ b` on the next line.  What is no statement stands in a
node that is extra, and a token is missing after it. -/
def faultyModule : Tree :=
  .node (faultyInfo "module" 0 5)
    [.node { faultyInfo "expression_statement" 0 1 with faulty := false }
        [.node { faultyInfo "identifier" 0 1 with faulty := false } []],
      .node { faultyInfo "line_continuation" 1 5 with extra := true }
        [.node { faultyInfo "ERROR" 2 5 with error := true } []],
      .node { faultyInfo "identifier" 5 5 with missing := true } []]

end Concrete

theorem parseTree_of_flagged_extra :
    Concrete.faultyModule.FlagsTell ∧ Concrete.faultyModule.info.faulty = true ∧
    ∃ (before after : List Tree) (t : Tree) (message : String),
      Concrete.faultyModule.subtrees = before ++ t :: after ∧ t.info.isFault = true ∧
      (∀ u ∈ before, u.info.isFault = false) ∧
      (Source.ofText "a\n$ b").Describes t message ∧
      parseTree "a\n$ b" Concrete.faultyModule = .error (.fault (.malformed message)
        ⟨(Source.ofText "a\n$ b").row t.info.start + 1,
          (Source.ofText "a\n$ b").column t.info.start + 1⟩) := by
  have hflags : Concrete.faultyModule.FlagsTell := by decide +kernel
  exact ⟨hflags, rfl, parseTree_of_flagged "a\n$ b" hflags rfl⟩

example : parseTree "a\n$ b" Concrete.faultyModule =
    .error (.fault (.malformed "unexpected `$ b`") ⟨2, 1⟩) := by decide +kernel

end RenderGate
