import RenderGate.Proofs.Double.Encoding

/-!
# Doubles as numbers

Every finite double stands for a rational number, `rat`.  Finite doubles are ordered as these
numbers (`le_iff`, `lt_iff`), and apart from the two zeros a finite double is determined by its
number (`eq_of_rat_eq`).
-/

namespace RenderGate.Double

open Float.Model Float.Model.UnpackedFloat

theorem Canonical.quantum {m : ℕ} {e : ℤ} (h : Canonical m e) : Quantum (m * 2 ^ e) e := by
  have habs : |(m : ℚ) * 2 ^ e| = m * 2 ^ e := abs_of_nonneg (by positivity)
  refine ⟨h.least, ?_, h.full.imp (fun hm => ?_) id⟩
  · have hb : (m : ℚ) < 2 ^ (53 : ℤ) := by exact_mod_cast h.below
    rw [habs, add_comm, zpow_add₀ two_ne_zero]
    exact mul_lt_mul_of_pos_right hb (two_zpow_pos e)
  · have hf : (2 : ℚ) ^ (52 : ℤ) ≤ m := by exact_mod_cast hm
    rw [habs, add_comm, zpow_add₀ two_ne_zero]
    exact mul_le_mul_of_nonneg_right hf (two_zpow_pos e).le

theorem Canonical.compare {m n : ℕ} {e f : ℤ} (hm : Canonical m e) (hn : Canonical n f) :
    (Ord.compare e f).then (Ord.compare m n) = Ord.compare ((m : ℚ) * 2 ^ e) (n * 2 ^ f) := by
  have hquantum : ∀ {a b : ℕ} {i j : ℤ}, Canonical a i → Canonical b j → i < j →
      (a : ℚ) * 2 ^ i < b * 2 ^ j := fun ha hb hij => by
    refine lt_of_not_ge fun hge => not_le_of_gt hij (hb.quantum.mono ha.quantum ?_)
    rwa [abs_of_nonneg (by positivity), abs_of_nonneg (by positivity)]
  rcases lt_trichotomy e f with h | rfl | h
  · rw [compare_lt_iff_lt.mpr h, compare_lt_iff_lt.mpr (hquantum hm hn h)]
    rfl
  · rw [compare_eq_iff_eq.mpr rfl]
    rcases lt_trichotomy m n with h | rfl | h
    · have h' : (m : ℚ) < n := by exact_mod_cast h
      rw [compare_lt_iff_lt.mpr h,
        compare_lt_iff_lt.mpr (mul_lt_mul_of_pos_right h' (two_zpow_pos e))]
      rfl
    · rw [compare_eq_iff_eq.mpr rfl, compare_eq_iff_eq.mpr rfl]
      rfl
    · have h' : (n : ℚ) < m := by exact_mod_cast h
      rw [compare_gt_iff_gt.mpr h,
        compare_gt_iff_gt.mpr (mul_lt_mul_of_pos_right h' (two_zpow_pos e))]
      rfl
  · rw [compare_gt_iff_gt.mpr h, compare_gt_iff_gt.mpr (hquantum hn hm h)]
    rfl

/-- The number that an unpacked double stands for, and 0 if it stands for none. -/
def number : UnpackedFloat → ℚ
  | .finite s m e _ => s.apply m * 2 ^ e
  | _ => 0

theorem number_zero (s : Sign) : number (.zero s) = 0 := rfl

theorem number_positive (m : ℕ) (e : ℤ) (h : 0 < m) :
    number (.finite .positive m e h) = m * 2 ^ e := by
  simp [number, Sign.apply]

theorem number_negative (m : ℕ) (e : ℤ) (h : 0 < m) :
    number (.finite .negative m e h) = -(m * 2 ^ e) := by
  simp [number, Sign.apply]

theorem number_positive_pos (m : ℕ) (e : ℤ) (h : 0 < m) : 0 < number (.finite .positive m e h) := by
  rw [number_positive]
  positivity

theorem number_negative_neg (m : ℕ) (e : ℤ) (h : 0 < m) : number (.finite .negative m e h) < 0 := by
  rw [number_negative]
  exact neg_neg_of_pos (by positivity)

theorem compare_neg_neg (a b : ℚ) : compare (-a) (-b) = (compare a b).swap := by
  rcases lt_trichotomy a b with h | rfl | h
  · rw [compare_lt_iff_lt.mpr h, compare_gt_iff_gt.mpr (neg_lt_neg h)]
    rfl
  · rw [compare_eq_iff_eq.mpr rfl, compare_eq_iff_eq.mpr rfl]
    rfl
  · rw [compare_gt_iff_gt.mpr h, compare_lt_iff_lt.mpr (neg_lt_neg h)]
    rfl

theorem compare_eq_compare_number {u v : UnpackedFloat} (hu : Normal u) (hv : Normal v)
    (fu : u.isFinite = true) (fv : v.isFinite = true) :
    u.compare v = some (compare (number u) (number v)) := by
  cases u with
  | infinity => simp [UnpackedFloat.isFinite] at fu
  | notANumber => simp [UnpackedFloat.isFinite] at fu
  | zero s =>
      cases v with
      | infinity => simp [UnpackedFloat.isFinite] at fv
      | notANumber => simp [UnpackedFloat.isFinite] at fv
      | zero t => simp [UnpackedFloat.compare, number]
      | finite t n f hn =>
          cases t with
          | positive =>
            rw [number_zero, compare_lt_iff_lt.mpr (number_positive_pos n f hn)]
            rfl
          | negative =>
            rw [number_zero, compare_gt_iff_gt.mpr (number_negative_neg n f hn)]
            rfl
  | finite s m e hm =>
      cases v with
      | infinity => simp [UnpackedFloat.isFinite] at fv
      | notANumber => simp [UnpackedFloat.isFinite] at fv
      | zero t =>
          cases s with
          | positive =>
            rw [number_zero, compare_gt_iff_gt.mpr (number_positive_pos m e hm)]
            rfl
          | negative =>
            rw [number_zero, compare_lt_iff_lt.mpr (number_negative_neg m e hm)]
            rfl
      | finite t n f hn =>
          cases s <;> cases t
          · rw [number_negative, number_negative, compare_neg_neg, ← hu.compare hv]
            rfl
          · rw [compare_lt_iff_lt.mpr
              ((number_negative_neg m e hm).trans (number_positive_pos n f hn))]
            rfl
          · rw [compare_gt_iff_gt.mpr
              ((number_negative_neg n f hn).trans (number_positive_pos m e hm))]
            rfl
          · rw [number_positive, number_positive, ← hu.compare hv]
            rfl

/-- The number that a double stands for, and 0 if it stands for none. -/
def rat (x : Float) : ℚ := number x.toModel.unpack

theorem le_iff_isLE {x y : Float} :
    x ≤ y ↔ (x.toModel.unpack.compare y.toModel.unpack).any (·.isLE) = true := by
  show decide _ = true ↔ _
  rw [decide_eq_true_eq]
  rfl

theorem le_iff {x y : Float} (hx : x.isFinite = true) (hy : y.isFinite = true) :
    x ≤ y ↔ rat x ≤ rat y := by
  have h := compare_eq_compare_number (normal_unpack x.toModel).1 (normal_unpack y.toModel).1 hx hy
  rw [le_iff_isLE, h, Option.any_some, ← Ordering.ne_gt_iff_isLE]
  exact compare_le_iff_le

theorem lt_iff {x y : Float} (hx : x.isFinite = true) (hy : y.isFinite = true) :
    x < y ↔ rat x < rat y := by
  have h := compare_eq_compare_number (normal_unpack x.toModel).1 (normal_unpack y.toModel).1 hx hy
  have hlt : x < y ↔ (x.toModel.unpack.compare y.toModel.unpack == some .lt) = true := by
    show decide _ = true ↔ _
    rw [decide_eq_true_eq]
    rfl
  rw [hlt, h]
  simp [rat, compare_lt_iff_lt]

theorem compare_infinity {u : UnpackedFloat} (h : u.isFinite = true) (s : Sign) :
    u.compare (.infinity s) = some (match s with | .positive => .lt | .negative => .gt) := by
  cases u with
  | infinity => simp [UnpackedFloat.isFinite] at h
  | notANumber => simp [UnpackedFloat.isFinite] at h
  | zero t => cases s <;> rfl
  | finite t m e hm => cases s <;> cases t <;> rfl

theorem compare_notANumber_right (u : UnpackedFloat) : u.compare .notANumber = none := by
  cases u <;> rfl

/-- The order is transitive from a finite double to a finite one to any double. -/
theorem le_trans_of_isFinite {x y z : Float} (hx : x.isFinite = true) (hy : y.isFinite = true)
    (hxy : x ≤ y) (hyz : y ≤ z) : x ≤ z := by
  by_cases hz : z.isFinite = true
  · rw [le_iff hx hz]
    exact ((le_iff hx hy).mp hxy).trans ((le_iff hy hz).mp hyz)
  · rw [le_iff_isLE] at hyz ⊢
    have hz' : ¬ z.toModel.unpack.isFinite = true := hz
    cases hu : z.toModel.unpack with
    | zero s => exact absurd (by rw [hu]; rfl) hz'
    | finite s m e hm => exact absurd (by rw [hu]; rfl) hz'
    | notANumber =>
        rw [hu, compare_notANumber_right] at hyz
        exact absurd hyz Bool.false_ne_true
    | infinity s =>
        rw [hu, compare_infinity hy] at hyz
        rw [compare_infinity hx]
        exact hyz

theorem Canonical.eq_of_value_eq {m n : ℕ} {e f : ℤ} (hm : Canonical m e) (hn : Canonical n f)
    (h : (m : ℚ) * 2 ^ e = n * 2 ^ f) : m = n ∧ e = f := by
  have hc := hm.compare hn
  rw [h, compare_eq_iff_eq.mpr rfl, Ordering.then_eq_eq, compare_eq_iff_eq, compare_eq_iff_eq] at hc
  exact hc.symm

theorem eq_of_number_eq {u v : UnpackedFloat} (hu : Normal u) (hv : Normal v)
    (h : number u = number v) (h₀ : number u ≠ 0) : u = v := by
  cases u with
  | infinity => exact absurd rfl h₀
  | notANumber => exact absurd rfl h₀
  | zero => exact absurd rfl h₀
  | finite s m e hm =>
      cases v with
      | infinity => exact absurd h h₀
      | notANumber => exact absurd h h₀
      | zero => exact absurd h h₀
      | finite t n f hn =>
          have hmp := number_positive_pos m e hm
          have hmn := number_negative_neg m e hm
          have hnp := number_positive_pos n f hn
          have hnn := number_negative_neg n f hn
          cases s <;> cases t
          · rw [number_negative, number_negative, neg_inj] at h
            obtain ⟨rfl, rfl⟩ := Canonical.eq_of_value_eq hu hv h
            rfl
          · linarith
          · linarith
          · rw [number_positive, number_positive] at h
            obtain ⟨rfl, rfl⟩ := Canonical.eq_of_value_eq hu hv h
            rfl

/-- Two doubles that stand for the same number other than 0 are the same. -/
theorem eq_of_rat_eq {x y : Float} (h : rat x = rat y) (h₀ : rat x ≠ 0) : x = y :=
  eq_of_unpack_eq
    (eq_of_number_eq (normal_unpack x.toModel).1 (normal_unpack y.toModel).1 h h₀)

end RenderGate.Double
