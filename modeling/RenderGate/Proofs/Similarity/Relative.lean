import RenderGate.Proofs.Double.Gap
import RenderGate.Proofs.Similarity.Range

/-!
# When metrics agree

Two metrics have no similarity if both are zero, and the similarity 1 just where they are equal.
They have the similarity 0 where one is zero and the other is not; of values above `2 ^ 53` also
where the smaller one is lost in the rounded difference.  Of two histograms only the types that
occur on either side count, however the histograms list them.
-/

namespace RenderGate

open Double Similarity

theorem Double.Whole.metric {x : Float} (h : Whole x) : Metric x := ⟨h.finite, h.nonneg⟩

namespace Similarity

section metrics

variable {x y z : Float}

theorem relative?_eq_none_iff (hx : Metric x) (hy : Metric y) :
    relative? x y = none ↔ rat x = 0 ∧ rat y = 0 := by
  obtain ⟨hf, hmax⟩ := larger_spec hx.1 hy.1
  have hnone : relative? x y = none ↔ ¬ 0 < rat (larger x y) := by
    unfold relative?
    simp only
    rw [← rat_zero, ← lt_iff rfl hf]
    split
    · rename_i hpos
      exact iff_of_false (Option.some_ne_none _) (not_not.mpr hpos)
    · rename_i hpos
      exact iff_of_true rfl hpos
  rw [hnone, hmax, not_lt, max_le_iff]
  exact and_congr ⟨fun h => le_antisymm h hx.2, le_of_eq⟩ ⟨fun h => le_antisymm h hy.2, le_of_eq⟩

/-- Two natural numbers have the similarity 1 only if they are equal. -/
theorem relative?_eq_one_iff (hx : Whole x) (hy : Whole y) (h : relative? x y = some z) :
    z = 1.0 ↔ rat x = rat y := by
  obtain ⟨scale, rfl, hpos, hmax, hpart, hdiff⟩ := relative?_spec hx.metric hy.metric h
  constructor
  · intro hone
    by_contra hne
    have hscale : 1 ≤ rat scale := by
      rcases max_choice (rat x) (rat y) with hm | hm
      · rw [hmax, hm] at hpos ⊢
        exact hx.one_le hpos.ne'
      · rw [hmax, hm] at hpos ⊢
        exact hy.one_le hpos.ne'
    have hmin : Representable (min (rat x) (rat y)) := by
      rcases min_choice (rat x) (rat y) with hm | hm
      · rw [hm]
        exact representable_rat x
      · rw [hm]
        exact representable_rat y
    -- The difference is at least the last place of the larger value, and so is what it rounds to.
    have hgap := (representable_rat scale).gap hmin (le_min hx.nonneg hy.nonneg)
      (hmax ▸ min_lt_max.mpr hne)
    rw [hmax, max_sub_min_eq_abs', ← hmax] at hgap
    have hround := (Rounds.self ((representable_rat scale).scaled hscale)).mono hdiff.rounds hgap
    have hquotient : 2 ^ (-53 : ℤ) ≤ rat ((x - y).abs / scale) := by
      refine (Rounds.self representable_gap).mono (hpart.nearest_div hpos).rounds ?_
      rw [le_div_iff₀ hpos, mul_comm]
      exact hround
    exact (hpart.proportion_div hpos).one_sub_ne_one hquotient hone
  · intro heq
    have hzero : rat (x - y).abs = 0 := by
      rw [heq, sub_self, abs_zero] at hdiff
      exact hdiff.rounds.unique Rounds.zero
    exact one_sub_div_eq_one hpart.finite hzero hpos.ne'

/-- Two metrics have the similarity 0 only if their difference is rounded to the larger one. -/
theorem relative?_eq_zero_iff (hx : Metric x) (hy : Metric y) (h : relative? x y = some z) :
    z = 0.0 ↔ rat (x - y).abs = max (rat x) (rat y) := by
  obtain ⟨scale, rfl, hpos, hmax, hpart, -⟩ := relative?_spec hx hy h
  rw [(hpart.proportion_div hpos).one_sub_eq_zero_iff, hpart.div_eq_one_iff hpos, hmax]

/-- Differences of natural numbers up to `2 ^ 53` are exact, so the smaller one has to be zero. -/
theorem relative?_eq_zero_iff_of_le (hx : Whole x) (hy : Whole y) (hx₁ : rat x ≤ 2 ^ 53)
    (hy₁ : rat y ≤ 2 ^ 53) (h : relative? x y = some z) :
    z = 0.0 ↔ (rat x = 0 ↔ rat y ≠ 0) := by
  obtain ⟨scale, -, hpos, hmax, -, hdiff⟩ := relative?_spec hx.metric hy.metric h
  rw [relative?_eq_zero_iff hx.metric hy.metric h,
    hdiff.rat_eq (hx.representable_sub hy hx₁ hy₁)]
  rw [hmax] at hpos
  have hx₀ := hx.nonneg
  have hy₀ := hy.nonneg
  rcases le_total (rat x) (rat y) with hle | hle
  · rw [max_eq_right hle] at hpos ⊢
    rw [abs_of_nonpos (sub_nonpos.mpr hle), neg_sub, sub_eq_self]
    exact ⟨fun h => iff_of_true h hpos.ne', fun h => h.mpr hpos.ne'⟩
  · rw [max_eq_left hle] at hpos ⊢
    rw [abs_of_nonneg (sub_nonneg.mpr hle), sub_eq_self]
    exact ⟨fun h => iff_of_false hpos.ne' (not_not.mpr h),
      fun h => by_contra fun hne => hpos.ne' (h.mpr hne)⟩

end metrics

theorem mean?_eq_none_iff {xs : List Float} : mean? xs = none ↔ xs = [] := by
  unfold mean?
  cases xs <;> simp

/-- The sum of so many values does not reach their number. -/
theorem mean?_ne_one {xs : List Float} (hxs : ∀ x ∈ xs, Proportion x)
    (hlen : xs.length = 2 ^ 53 + 2) : mean? xs ≠ some 1.0 := by
  intro hmean
  obtain ⟨hf, h₀, hle⟩ := foldl_add_saturated hxs (a := 0.0) rfl rat_zero.ge
    (by rw [rat_zero]; norm_num)
  have hcount : rat (Float.ofNat xs.length) = 2 ^ 53 + 2 := by
    have hrep : Representable ((xs.length : ℕ) : ℚ) := by
      rw [hlen]
      exact ⟨2 ^ 52 + 1, 1, by norm_num, by norm_num, by norm_num⟩
    rw [(nearest_ofNat (natCast_le_largest (by omega))).rat_eq hrep, hlen]
    norm_num
  have hpart : Part (xs.foldl (· + ·) 0.0) (Float.ofNat xs.length) :=
    ⟨hf, h₀, by rw [hcount]; linarith⟩
  have hnonempty : xs ≠ [] := by
    rintro rfl
    exact absurd hlen (by decide)
  rw [mean?, if_neg (by simpa using hnonempty), Option.some.injEq,
    hpart.div_eq_one_iff (by rw [hcount]; norm_num), hcount] at hmean
  linarith

section histograms

variable {s t s' t' : Table Nat}

def count (s : Table Nat) (key : String) : ℕ := (s.get? key).getD 0

theorem mem_keys_of_count_ne_zero {key : String} (h : count s key ≠ 0) : key ∈ s.keys := by
  rw [Table.mem_keys_iff]
  cases hget : s.get? key with
  | none => exact absurd (by rw [count, hget, Option.getD_none]) h
  | some n => exact ⟨n, rfl⟩

def types (s t : Table Nat) : Table Unit :=
  Table.ofList ((s.keys ++ t.keys).map fun key => (key, ()))

def occurs (s t : Table Nat) (key : String) : Bool := count s key ≠ 0 || count t key ≠ 0

theorem mem_types_of_occurs {key : String} (h : occurs s t key = true) :
    key ∈ (types s t).keys := by
  rw [occurs, Bool.or_eq_true, decide_eq_true_eq, decide_eq_true_eq] at h
  rw [types, Table.mem_keys_ofList_units, List.mem_append]
  exact h.imp mem_keys_of_count_ne_zero mem_keys_of_count_ne_zero

/-- Only the types that occur count. -/
theorem histograms?_eq (s t : Table Nat) : histograms? s t =
    mean? (((types s t).keys.filter (occurs s t)).filterMap fun key =>
      relative? (Float.ofNat (count s key)) (Float.ofNat (count t key))) := by
  have habsent : relative? (Float.ofNat 0) (Float.ofNat 0) = none := by decide
  rw [List.filterMap_filter]
  refine congrArg mean? (List.filterMap_congr fun key _ => ?_)
  split
  · rfl
  · rename_i hoccurs
    rw [occurs, Bool.or_eq_true, decide_eq_true_eq, decide_eq_true_eq, not_or, not_not,
      not_not] at hoccurs
    show relative? (Float.ofNat (count s key)) (Float.ofNat (count t key)) = none
    rw [hoccurs.1, hoccurs.2, habsent]

/-- Histograms with the same counts compare alike, whatever they list with the count 0. -/
theorem histograms?_congr (hs : ∀ key, count s' key = count s key)
    (ht : ∀ key, count t' key = count t key) : histograms? s' t' = histograms? s t := by
  have hoccurs : occurs s' t' = occurs s t := by
    funext key
    rw [occurs, occurs, hs, ht]
  have htypes : (types s' t').keys.filter (occurs s t) = (types s t).keys.filter (occurs s t) :=
    Table.filter_keys_congr (fun key h => mem_types_of_occurs (hoccurs ▸ h))
      fun key h => mem_types_of_occurs h
  rw [histograms?_eq, histograms?_eq, hoccurs, htypes]
  simp only [hs, ht]

theorem histograms?_eq_none_iff (hs : ∀ key, count s key ≤ 2 ^ 53)
    (ht : ∀ key, count t key ≤ 2 ^ 53) :
    histograms? s t = none ↔ ∀ key, count s key = 0 ∧ count t key = 0 := by
  rw [histograms?_eq, mean?_eq_none_iff, List.filterMap_eq_nil_iff]
  have hnone (key : String) : relative? (Float.ofNat (count s key)) (Float.ofNat (count t key)) =
      none ↔ count s key = 0 ∧ count t key = 0 := by
    rw [relative?_eq_none_iff (whole_ofNat (hs key)).metric (whole_ofNat (ht key)).metric,
      rat_ofNat (hs key), rat_ofNat (ht key), Nat.cast_eq_zero, Nat.cast_eq_zero]
  simp only [hnone]
  refine ⟨fun h key => ?_, fun h key _ => h key⟩
  by_contra hkey
  have hoccurs : occurs s t key = true := by
    rw [occurs, Bool.or_eq_true, decide_eq_true_eq, decide_eq_true_eq]
    exact not_and_or.mp hkey
  exact hkey (h key (List.mem_filter.mpr ⟨mem_types_of_occurs hoccurs, hoccurs⟩))

end histograms

end Similarity

end RenderGate
