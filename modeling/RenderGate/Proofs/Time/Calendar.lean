import Mathlib.Algebra.Group.Nat.Defs
import RenderGate.Time.Calendar

/-!
# Valid instants

The days before and after a day of the calendar are in the calendar, unless they lie out of range.
So what is in range after a change to universal time is valid.
-/

namespace RenderGate

namespace Date

theorem monthLength_le (year : Int) (month : Nat) : monthLength year month ≤ 31 := by
  unfold monthLength
  split
  · split <;> omega
  · split <;> omega

theorem le_monthLength (year : Int) (month : Nat) : 28 ≤ monthLength year month := by
  unfold monthLength
  split
  · split <;> omega
  · split <;> omega

theorem isValid_iff {d : Date} : d.isValid = true ↔ d.inRange = true ∧ 1 ≤ d.month ∧ d.month ≤ 12 ∧
    1 ≤ d.day ∧ d.day ≤ monthLength d.year d.month := by
  simp only [isValid, Bool.and_eq_true, decide_eq_true_eq, and_assoc]

theorem inRange_of_isValid {d : Date} (h : d.isValid = true) : d.inRange = true :=
  (isValid_iff.mp h).1

/-- Months and days have at most two digits. -/
theorem lt_of_isValid {d : Date} (h : d.isValid = true) : d.month < 10 ^ 2 ∧ d.day < 10 ^ 2 := by
  obtain ⟨-, -, hmonth, -, hday⟩ := isValid_iff.mp h
  have hlength := monthLength_le d.year d.month
  exact ⟨by omega, by omega⟩

theorem isValid_next {d : Date} (h : d.isValid = true) (hrange : d.next.inRange = true) :
    d.next.isValid = true := by
  obtain ⟨-, hmonth, hmonth', hday, hday'⟩ := isValid_iff.mp h
  refine isValid_iff.mpr ⟨hrange, ?_⟩
  unfold next
  split
  · exact ⟨hmonth, hmonth', by simp only; omega, by simp only; omega⟩
  · split
    · have hlength := le_monthLength d.year (d.month + 1)
      exact ⟨by simp only; omega, by simp only; omega, by simp only; omega, by simp only; omega⟩
    · exact ⟨Nat.le_refl _, by simp only; omega, Nat.le_refl _, by simp [monthLength]⟩

theorem isValid_previous {d : Date} (h : d.isValid = true) (hrange : d.previous.inRange = true) :
    d.previous.isValid = true := by
  obtain ⟨-, hmonth, hmonth', hday, hday'⟩ := isValid_iff.mp h
  refine isValid_iff.mpr ⟨hrange, ?_⟩
  unfold previous
  split
  · exact ⟨hmonth, hmonth', by simp only; omega, by simp only; omega⟩
  · split
    · have hlength := le_monthLength d.year (d.month - 1)
      exact ⟨by simp only; omega, by simp only; omega, by simp only; omega, Nat.le_refl _⟩
    · exact ⟨by simp only; omega, Nat.le_refl _, by simp only; omega, by simp [monthLength]⟩

end Date

/-- The calendar has the date, and the clock has the time; only the last second of a minute can be
a leap second. -/
structure Instant.Valid (i : Instant) : Prop where
  date : i.date.isValid = true
  minute : i.minute < minutesPerDay
  second : i.second < 60
  nanos : i.nanos < 1000000000 ∨ i.second = 59 ∧ i.nanos < 2000000000

theorem universal_zero (d : Date) {minute : Nat} (h : minute < minutesPerDay) :
    universal d minute 0 = (d, minute) := by
  have hday : ((minutesPerDay : Nat) : Int) = 1440 := rfl
  have h' : minute < 1440 := h
  simp only [universal]
  rw [if_neg (by omega), if_neg (by omega), Int.sub_zero, Int.toNat_natCast]

theorem universal_spec {d : Date} {minute : Nat} {ahead : Int} (hd : d.isValid = true)
    (hminute : minute < minutesPerDay) (hahead : -1440 < ahead ∧ ahead < 1440)
    (hrange : (universal d minute ahead).1.inRange = true) :
    (universal d minute ahead).1.isValid = true ∧
      (universal d minute ahead).2 < minutesPerDay := by
  have hday : ((minutesPerDay : Nat) : Int) = 1440 := rfl
  have hday' : minutesPerDay = 1440 := rfl
  unfold universal at hrange ⊢
  simp only at hrange ⊢
  split at hrange
  · rename_i h
    rw [if_pos h]
    exact ⟨Date.isValid_previous hd hrange, by simp only; omega⟩
  · rename_i h
    rw [if_neg h]
    split at hrange
    · rename_i h'
      rw [if_pos h']
      exact ⟨Date.isValid_next hd hrange, by simp only; omega⟩
    · rename_i h'
      rw [if_neg h']
      exact ⟨hd, by simp only; omega⟩

end RenderGate
