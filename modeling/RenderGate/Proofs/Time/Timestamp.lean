import RenderGate.Proofs.Text.Scan
import RenderGate.Proofs.Time.Calendar
import RenderGate.Time.Timestamp

/-!
# Timestamps are read back

The text of an instant denotes this instant (`ofText?_text`), and every text that denotes an instant
denotes one that the calendar has (`valid_of_ofText?`).  Reading is lenient where writing is not, so
it is followed here along the written text only: numbers end where their digits do, and no blank
stands between them.
-/

namespace RenderGate

namespace Timestamp

open Decimal Scan

theorem digits_padded (width n : Nat) : Digits (padded width n) := by
  intro c hc
  rcases List.mem_append.mp hc with hc | hc
  · rw [List.eq_of_mem_replicate hc]
    rfl
  · exact isDigit_of_isDigit (Nat.isDigit_of_mem_toDigits (by norm_num) le_rfl hc)

theorem value_padded (width n : Nat) : value (padded width n) = n := by
  rw [padded, value_eq, Nat.ofDigitChars_append, Nat.ofDigitChars_replicate_zero, Nat.mul_zero,
    Nat.ofDigitChars_ten_toDigits]

theorem padded_ne_nil (width n : Nat) : padded width n ≠ [] := by
  intro h
  exact Nat.toDigits_ne_nil (List.append_eq_nil_iff.mp h).2

theorem length_padded {width n : Nat} (hwidth : 0 < width) (h : n < 10 ^ width) :
    (padded width n).length = width := by
  have hle := (Nat.length_toDigits_le_iff (b := 10) (by norm_num) hwidth).mpr h
  rw [padded, List.length_append, List.length_replicate]
  omega

theorem run_blanks {cs : List Char} (h : Stops Text.isBlank cs) :
    StateT.run blanks cs = some ((), cs) := by
  have hnil : ∀ c ∈ ([] : List Char), Text.isBlank c = true := fun _ => nofun
  have hrun := run_run hnil h
  rw [List.nil_append] at hrun
  show (StateT.run (run Text.isBlank) cs).bind (fun p => some ((), p.2)) = _
  rw [hrun]
  rfl

theorem run_number {limit n : Nat} (hlimit : 0 < limit) (hn : n < 10 ^ limit) (cs : List Char) :
    StateT.run (number limit) (padded limit n ++ cs) = some (n, cs) := by
  have hds := digits_padded limit n
  have hne := padded_ne_nil limit n
  rw [number, run_bind_of_eq (run_blanks (stops_append_of_digits isBlank_of_isDigit hds hne cs)),
    run_bind_of_eq (run_runUpTo cs hds (length_padded hlimit hn)),
    run_bind_of_eq (run_require (by simpa using hne) cs), value_padded]
  rfl

theorem run_separator {c : Char} (h : Text.isBlank c = false) (cs : List Char) :
    StateT.run (separator c) (c :: cs) = some ((), cs) := by
  have hnext : StateT.run next (c :: cs) = some (c, cs) := rfl
  rw [separator, run_bind_of_eq (run_blanks (stops_cons h cs)), char, run_bind_of_eq hnext]
  exact run_require (beq_self_eq_true c) cs

/-- A year is read back where its digits end. -/
theorem run_year (y : Int) {cs : List Char} (hcs : Stops isDigit cs) :
    StateT.run year (yearText y ++ cs) = some (y, cs) := by
  have hds := digits_padded 4 y.natAbs
  have hne := padded_ne_nil 4 y.natAbs
  have hrun := run_run hds hcs
  have hsome : (!(padded 4 y.natAbs).isEmpty) = true := by simpa using hne
  have hrequire := run_require hsome cs
  unfold year yearText
  split
  · rename_i hy
    rw [List.cons_append, run_bind_of_eq (run_blanks (stops_cons (by decide) _)),
      run_bind_of_eq (run_accept (by decide) _)]
    simp only [↓reduceIte, pure_bind]
    rw [run_bind_of_eq hrun, run_bind_of_eq hrequire, value_padded]
    show some (-(y.natAbs : Int), cs) = _
    congr 2
    omega
  · split
    · rename_i hy hlarge
      rw [List.cons_append, run_bind_of_eq (run_blanks (stops_cons (by decide) _)),
        run_bind_of_eq (run_accept_of_stops (c := '-') (by decide) (stops_cons (by decide) _))]
      simp only [Bool.false_eq_true, ↓reduceIte]
      rw [run_bind_of_eq (run_accept (by decide) _)]
      simp only [↓reduceIte]
      rw [run_bind_of_eq hrun, run_bind_of_eq hrequire, value_padded]
      show some ((y.natAbs : Int), cs) = _
      congr 2
      omega
    · rename_i hy hlarge
      have hlen : (padded 4 y.natAbs).length = 4 := length_padded (by norm_num) (by omega)
      rw [run_bind_of_eq (run_blanks (stops_append_of_digits isBlank_of_isDigit hds hne cs)),
        run_bind_of_eq (run_accept_of_stops (c := '-') (by decide)
          (stops_append_of_digits (beq_eq_false_of_isDigit (by decide)) hds hne cs))]
      simp only [Bool.false_eq_true, ↓reduceIte]
      rw [run_bind_of_eq (run_accept_of_stops (c := '+') (by decide)
        (stops_append_of_digits (beq_eq_false_of_isDigit (by decide)) hds hne cs))]
      simp only [Bool.false_eq_true, ↓reduceIte]
      rw [run_bind_of_eq (run_runUpTo cs hds hlen), run_bind_of_eq hrequire, value_padded]
      show some ((y.natAbs : Int), cs) = _
      congr 2
      omega

theorem run_date {d : Date} (hd : d.isValid = true) (cs : List Char) :
    StateT.run date
        (yearText d.year ++ '-' :: (padded 2 d.month ++ '-' :: (padded 2 d.day ++ cs))) =
      some (d, cs) := by
  obtain ⟨hmonth, hday⟩ := d.lt_of_isValid hd
  rw [date, run_bind_of_eq (run_year d.year (stops_cons (by decide) _)),
    run_bind_of_eq (run_separator (by decide) _),
    run_bind_of_eq (run_number (by norm_num) hmonth _),
    run_bind_of_eq (run_separator (by decide) _),
    run_bind_of_eq (run_number (by norm_num) hday _), run_bind_of_eq (run_require hd _)]
  rfl

theorem run_fraction_padded {width n : Nat} (hwidth : 0 < width) (hle : width ≤ 9)
    (hn : n < 10 ^ width) {cs : List Char} (hcs : Stops isDigit cs) :
    StateT.run fraction ('.' :: padded width n ++ cs) = some (10 ^ (9 - width) * n, cs) := by
  have hlen := length_padded hwidth hn
  have htake : (padded width n ++ List.replicate 9 '0').take 9 =
      padded width n ++ List.replicate (9 - width) '0' := by
    rw [List.take_append, hlen, List.take_of_length_le (by omega), List.take_replicate]
    congr 2
    omega
  rw [fraction, List.cons_append, run_bind_of_eq (run_accept (by decide) _)]
  simp only [↓reduceIte]
  rw [run_bind_of_eq (run_run (digits_padded width n) hcs),
    run_bind_of_eq (run_require (by simpa using padded_ne_nil width n) cs), htake,
    value_append_zeros, value_padded]
  rfl

/-- A fraction is read back where its digits end, also where none is written. -/
theorem run_fraction {n : Nat} (hn : n < 1000000000) {cs : List Char} (hdigit : Stops isDigit cs)
    (hdot : Stops (· == '.') cs) : StateT.run fraction (fractionText n ++ cs) = some (n, cs) := by
  unfold fractionText
  split
  · rename_i hzero
    rw [List.nil_append, fraction, run_bind_of_eq (run_accept_of_stops (c := '.') (by decide) hdot),
      hzero]
    rfl
  · split
    · rename_i h
      rw [run_fraction_padded (by norm_num) (by omega) (by omega) hdigit]
      congr 2
      omega
    · split
      · rename_i h
        rw [run_fraction_padded (by norm_num) (by omega) (by omega) hdigit]
        congr 2
        omega
      · rw [run_fraction_padded (by norm_num) (by omega) (by omega) hdigit]
        congr 2
        omega

theorem run_offset : StateT.run offset ['Z'] = some (0, []) := rfl

/-- A leap second is written as second 60. -/
theorem run_instant {i : Instant} (hi : i.Valid) :
    StateT.run instant i.text.toList = some (i, []) := by
  have hminute : i.minute < 1440 := hi.minute
  have hsecond := hi.second
  have hnanos := hi.nanos
  have htotal : i.minute / 60 * 60 + i.minute % 60 = i.minute := by omega
  rw [Instant.text, String.toList_ofList]
  simp only [List.append_assoc, List.cons_append]
  rw [instant, run_bind_of_eq (run_date hi.date _), run_bind_of_eq (s := next) (a := 'T') rfl,
    run_bind_of_eq (run_require (by decide) _),
    run_bind_of_eq (run_number (by norm_num) (by omega) _),
    run_bind_of_eq (run_separator (by decide) _),
    run_bind_of_eq (run_number (by norm_num) (by omega) _),
    run_bind_of_eq (run_separator (by decide) _),
    run_bind_of_eq (run_number (by norm_num) (by split <;> omega) _),
    run_bind_of_eq (run_fraction (by split <;> omega) (stops_cons (by decide) _)
      (stops_cons (by decide) _)),
    run_bind_of_eq (run_blanks (stops_cons (by decide) _)), run_bind_of_eq run_offset,
    run_bind_of_eq (run_blanks (stops_nil _)),
    run_bind_of_eq (run_require (by simp; split <;> omega) _)]
  simp only [htotal, universal_zero i.date hi.minute]
  rw [run_bind_of_eq (run_require (Date.inRange_of_isValid hi.date) _)]
  have hmin : min (if 1000000000 ≤ i.nanos then i.second + 1 else i.second) 59 = i.second := by
    split <;> omega
  have hread : (if (if 1000000000 ≤ i.nanos then i.second + 1 else i.second) = 60 then
      (if 1000000000 ≤ i.nanos then i.nanos - 1000000000 else i.nanos) + 1000000000
      else if 1000000000 ≤ i.nanos then i.nanos - 1000000000 else i.nanos) = i.nanos := by
    split <;> split <;> omega
  simp only [hmin, hread]
  rfl

theorem isValid_of_run_date {cs ds : List Char} {d : Date}
    (h : StateT.run date cs = some (d, ds)) : d.isValid = true := by
  unfold date at h
  simp only [run_bind_eq_some] at h
  obtain ⟨y, _, -, _, _, -, m, _, -, _, _, -, n, _, -, _, _, hvalid, hpure⟩ := h
  obtain ⟨rfl, -⟩ := Prod.mk.inj (Option.some.inj hpure)
  exact of_run_require hvalid

theorem lt_of_run_fraction {cs ds : List Char} {n : Nat}
    (h : StateT.run fraction cs = some (n, ds)) : n < 1000000000 := by
  unfold fraction at h
  obtain ⟨dot, es, -, h⟩ := run_bind_eq_some.mp h
  split at h
  · simp only [run_bind_eq_some] at h
    obtain ⟨xs, _, hxs, _, _, -, hpure⟩ := h
    obtain ⟨rfl, -⟩ := Prod.mk.inj (Option.some.inj hpure)
    have hdigits : Digits ((xs ++ List.replicate 9 '0').take 9) := fun c hc => by
      rcases List.mem_append.mp (List.mem_of_mem_take hc) with hc | hc
      · exact digits_of_run_run hxs c hc
      · rw [List.eq_of_mem_replicate hc]
        rfl
    refine (value_lt hdigits).trans_le (Nat.pow_le_pow_right (by norm_num) ?_ : _ ≤ 10 ^ 9)
    exact List.length_take_le 9 _
  · obtain ⟨rfl, -⟩ := Prod.mk.inj (Option.some.inj h)
    norm_num

/-- Clocks differ from universal time by less than a day. -/
theorem abs_lt_of_run_offset {cs ds : List Char} {ahead : Int}
    (h : StateT.run offset cs = some (ahead, ds)) : -1440 < ahead ∧ ahead < 1440 := by
  unfold offset at h
  obtain ⟨xs, es, -, h⟩ := run_bind_eq_some.mp h
  split at h
  · obtain ⟨_, fs, -, h⟩ := run_bind_eq_some.mp h
    obtain ⟨rfl, -⟩ := Prod.mk.inj (Option.some.inj h)
    omega
  · obtain ⟨sign, fs, -, h⟩ := run_bind_eq_some.mp h
    split at h
    · obtain ⟨rfl, -⟩ := Prod.mk.inj (Option.some.inj h)
      omega
    · simp only [run_bind_eq_some] at h
      obtain ⟨_, _, -, hours, _, -, _, _, -, minutes, _, -, _, _, hrange, hpure⟩ := h
      have hbounds := of_run_require hrange
      simp only [Bool.and_eq_true, decide_eq_true_eq] at hbounds
      obtain ⟨rfl, -⟩ := Prod.mk.inj (Option.some.inj hpure)
      split <;> omega

theorem valid_of_run_instant {cs ds : List Char} {i : Instant}
    (h : StateT.run instant cs = some (i, ds)) : i.Valid := by
  unfold instant at h
  simp only [run_bind_eq_some] at h
  obtain ⟨day, _, hdate, t, _, -, _, _, -, hour, _, -, _, _, -, minute, _, -, _, _, -, second, _, -,
    nanos, _, hnanos, _, _, -, ahead, _, hahead, _, _, -, _, _, htime, _, _, hrange, hpure⟩ := h
  have htime' := of_run_require htime
  simp only [Bool.and_eq_true, decide_eq_true_eq] at htime'
  have hfraction := lt_of_run_fraction hnanos
  have hminute : hour * 60 + minute < minutesPerDay := by
    show _ < 1440
    omega
  obtain ⟨hvalid, hlt⟩ := universal_spec (isValid_of_run_date hdate) hminute
    (abs_lt_of_run_offset hahead) (of_run_require hrange)
  obtain ⟨rfl, -⟩ := Prod.mk.inj (Option.some.inj hpure)
  refine ⟨hvalid, hlt, ?_, ?_⟩
  · show min second 59 < 60
    omega
  · show (if second = 60 then nanos + 1000000000 else nanos) < 1000000000 ∨
      min second 59 = 59 ∧ (if second = 60 then nanos + 1000000000 else nanos) < 2000000000
    split <;> omega

end Timestamp

namespace Instant

open Scan Timestamp

/-- The text of an instant denotes this instant. -/
theorem ofText?_text {i : Instant} (hi : i.Valid) : ofText? i.text = some i := by
  show (StateT.run (instant <* finish) i.text.toList).map Prod.fst = some i
  rw [StateT.run_seqLeft, run_instant hi]
  rfl

/-- A text that denotes an instant denotes a valid one. -/
theorem valid_of_ofText? {text : String} {i : Instant} (h : ofText? text = some i) : i.Valid := by
  obtain ⟨⟨_, ds⟩, hrun, rfl⟩ := Option.map_eq_some_iff.mp h
  rw [StateT.run_seqLeft] at hrun
  obtain ⟨⟨_, es⟩, hinstant, hfinish⟩ := Option.bind_eq_some_iff.mp hrun
  obtain ⟨⟨_, fs⟩, -, hpure⟩ := Option.bind_eq_some_iff.mp hfinish
  obtain ⟨rfl, -⟩ := Prod.mk.inj (Option.some.inj hpure)
  exact valid_of_run_instant hinstant

end Instant

end RenderGate
