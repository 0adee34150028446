import Mathlib.Data.List.Induction
import Mathlib.Data.List.TakeWhile
import Mathlib.Tactic.NormNum
import RenderGate.Text.Scan

/-!
# Scanning known text

What a scan does on a text whose front is known, and what is known of the values that it yields.  A
run of digits is scanned as a whole where the text does not go on with another digit.
-/

namespace RenderGate

namespace Decimal

def Digits (ds : List Char) : Prop := ∀ c ∈ ds, isDigit c = true

theorem isDigit_iff {c : Char} : isDigit c = true ↔ 48 ≤ c.toNat ∧ c.toNat ≤ 57 := by
  simp only [isDigit, Bool.and_eq_true, decide_eq_true_eq, Char.le_def, UInt32.le_iff_toNat_le]
  exact Iff.rfl

theorem isDigit_of_isDigit {c : Char} (h : c.isDigit = true) : isDigit c = true := by
  simpa [Char.isDigit, isDigit, Char.le_def] using h

theorem isBlank_of_isDigit {c : Char} (h : isDigit c = true) : Text.isBlank c = false := by
  obtain ⟨hl, hu⟩ := isDigit_iff.mp h
  simp only [Text.isBlank, Text.blankRanges, List.any_cons, List.any_nil, Bool.or_eq_false_iff,
    Bool.and_eq_false_iff, decide_eq_false_iff_not, Bool.or_false]
  omega

theorem beq_eq_false_of_isDigit {c d : Char} (hd : isDigit d = false) (hc : isDigit c = true) :
    (c == d) = false :=
  beq_false_of_ne fun h => Bool.false_ne_true (hd.symm.trans (h ▸ hc))

theorem value_eq (ds : List Char) : value ds = Nat.ofDigitChars 10 ds 0 := rfl

theorem value_append_zeros (ds : List Char) (k : Nat) :
    value (ds ++ List.replicate k '0') = 10 ^ k * value ds := by
  rw [value_eq, Nat.ofDigitChars_append, Nat.ofDigitChars_replicate_zero, value_eq]

theorem value_lt {ds : List Char} (h : Digits ds) : value ds < 10 ^ ds.length := by
  induction ds using List.reverseRecOn with
  | nil => norm_num [value]
  | append_singleton ds d ih =>
      have hd := isDigit_iff.mp (h d (List.mem_append_right ds List.mem_cons_self))
      have hvalue : value (ds ++ [d]) = 10 * value ds + (d.toNat - 48) := by
        rw [value, List.foldl_append]
        rfl
      have hds := ih fun c hc => h c (List.mem_append_left [d] hc)
      rw [hvalue, List.length_append, List.length_singleton, Nat.pow_succ]
      omega

end Decimal

open Decimal

namespace Scan

variable {α β : Type}

/-- A list of characters that does not go on with one that satisfies the condition. -/
def Stops (condition : Char → Bool) (cs : List Char) : Prop := ∀ c ∈ cs.head?, condition c = false

theorem stops_nil (condition : Char → Bool) : Stops condition [] := fun _ => nofun

theorem stops_cons {condition : Char → Bool} {c : Char} (h : condition c = false)
    (cs : List Char) : Stops condition (c :: cs) := fun _ hd => Option.some.inj hd ▸ h

theorem takeWhile_append {condition : Char → Bool} {ds cs : List Char}
    (hds : ∀ c ∈ ds, condition c = true) (hcs : Stops condition cs) :
    (ds ++ cs).takeWhile condition = ds := by
  rw [List.takeWhile_append_of_pos hds]
  cases cs with
  | nil => rw [List.takeWhile_nil, List.append_nil]
  | cons c cs =>
      have hc : ¬ condition c = true := Bool.eq_false_iff.mp (hcs c rfl)
      rw [List.takeWhile_cons_of_neg hc, List.append_nil]

theorem dropWhile_append {condition : Char → Bool} {ds cs : List Char}
    (hds : ∀ c ∈ ds, condition c = true) (hcs : Stops condition cs) :
    (ds ++ cs).dropWhile condition = cs := by
  rw [List.dropWhile_append_of_pos hds]
  cases cs with
  | nil => rfl
  | cons c cs =>
      have hc : ¬ condition c = true := Bool.eq_false_iff.mp (hcs c rfl)
      rw [List.dropWhile_cons_of_neg hc]

theorem run_run {condition : Char → Bool} {ds cs : List Char}
    (hds : ∀ c ∈ ds, condition c = true) (hcs : Stops condition cs) :
    StateT.run (run condition) (ds ++ cs) = some (ds, cs) := by
  show some ((ds ++ cs).takeWhile condition, (ds ++ cs).dropWhile condition) = _
  rw [takeWhile_append hds hcs, dropWhile_append hds hcs]

theorem run_runUpTo {condition : Char → Bool} {limit : Nat} {ds : List Char} (cs : List Char)
    (hds : ∀ c ∈ ds, condition c = true) (hlimit : ds.length = limit) :
    StateT.run (runUpTo limit condition) (ds ++ cs) = some (ds, cs) := by
  show some (((ds ++ cs).take limit).takeWhile condition,
    (ds ++ cs).drop (((ds ++ cs).take limit).takeWhile condition).length) = _
  have htake : ds.takeWhile condition = ds := by
    have h := takeWhile_append hds (stops_nil condition)
    rwa [List.append_nil] at h
  rw [List.take_left' hlimit, htake, List.drop_left]

theorem run_require {condition : Bool} (h : condition = true) (cs : List Char) :
    StateT.run (require condition) cs = some ((), cs) := by
  rw [require, if_pos h]
  rfl

theorem run_bind_of_eq {s : Scan α} {cs ds : List Char} {a : α} (h : StateT.run s cs = some (a, ds))
    (f : α → Scan β) : StateT.run (s >>= f) cs = StateT.run (f a) ds := by
  rw [StateT.run_bind, h]
  rfl

theorem run_bind_eq_some {s : Scan α} {f : α → Scan β} {cs : List Char} {p : β × List Char} :
    StateT.run (s >>= f) cs = some p ↔
      ∃ a ds, StateT.run s cs = some (a, ds) ∧ StateT.run (f a) ds = some p := by
  rw [StateT.run_bind]
  exact Option.bind_eq_some_iff.trans ⟨fun ⟨q, hq, h⟩ => ⟨q.1, q.2, hq, h⟩,
    fun ⟨a, ds, hq, h⟩ => ⟨(a, ds), hq, h⟩⟩

theorem of_run_require {condition : Bool} {cs : List Char} {p : Unit × List Char}
    (h : StateT.run (require condition) cs = some p) : condition = true := by
  unfold require at h
  split at h
  · assumption
  · exact nomatch h

theorem run_accept_eq (text : String) (cs : List Char) : StateT.run (accept text) cs =
    if text.toList.isPrefixOf cs then some (true, cs.drop text.length) else some (false, cs) := by
  show StateT.run (if text.toList.isPrefixOf cs then _ else _) cs = _
  split <;> rfl

theorem run_accept {text : String} {c : Char} (h : text.toList = [c]) (cs : List Char) :
    StateT.run (accept text) (c :: cs) = some (true, cs) := by
  rw [run_accept_eq, ← String.length_toList, h, if_pos (by simp)]
  rfl

theorem run_accept_of_stops {text : String} {c : Char} (h : text.toList = [c]) {cs : List Char}
    (hcs : Stops (· == c) cs) : StateT.run (accept text) cs = some (false, cs) := by
  rw [run_accept_eq, h, if_neg]
  cases cs with
  | nil => exact Bool.false_ne_true
  | cons d cs =>
      have hd : (d == c) = false := hcs d rfl
      rw [List.isPrefixOf_cons_cons, Bool.beq_comm, hd]
      exact Bool.false_ne_true

theorem stops_append_of_digits {condition : Char → Bool}
    (hcondition : ∀ {c}, isDigit c = true → condition c = false) {ds : List Char}
    (hds : Digits ds) (hne : ds ≠ []) (cs : List Char) : Stops condition (ds ++ cs) := by
  cases ds with
  | nil => exact absurd rfl hne
  | cons d ds => exact stops_cons (hcondition (hds d List.mem_cons_self)) _

theorem digits_of_run_run {cs ds es : List Char}
    (h : StateT.run (run isDigit) cs = some (ds, es)) : Digits ds := by
  obtain ⟨rfl, -⟩ := Prod.mk.inj (Option.some.inj h)
  exact fun c hc => List.mem_takeWhile_imp hc

end Scan

end RenderGate
