import RenderGate.Proofs.Double.Mantissa

/-!
# Arithmetic of doubles

`Nearest q x` says that `x` is the finite double nearest to the rational number `q`.  The operations
on finite doubles give the double nearest to the exact result, as long as that is not too large, and
the nearest doubles of two numbers are ordered as the numbers are (`Nearest.le`).
-/

namespace RenderGate.Double

open Float.Model Float.Model.UnpackedFloat

theorem Rounds.zero : Rounds 0 0 := Rounds.self ⟨0, 0, by norm_num, by norm_num, by norm_num⟩

theorem Canonical.representable {m : ℕ} {e : ℤ} (h : Canonical m e) :
    Representable (m * 2 ^ e) := by
  refine ⟨m, e, ?_, h.least, by rw [Int.cast_natCast]⟩
  rw [Nat.abs_cast]
  exact_mod_cast h.below

theorem Representable.neg {v : ℚ} (h : Representable v) : Representable (-v) := by
  obtain ⟨n, e, hn, he, rfl⟩ := h
  exact ⟨-n, e, by rwa [abs_neg], he, by push_cast; ring⟩

theorem representable_number {u : UnpackedFloat} (h : Normal u) : Representable (number u) := by
  cases u with
  | finite s m e hm =>
      rw [number_finite]
      cases s
      · exact Representable.neg (Canonical.representable h)
      · exact Canonical.representable h
  | infinity => exact ⟨0, 0, by norm_num, by norm_num, by norm_num [number]⟩
  | notANumber => exact ⟨0, 0, by norm_num, by norm_num, by norm_num [number]⟩
  | zero => exact ⟨0, 0, by norm_num, by norm_num, by norm_num [number]⟩

theorem NearestUnpacked.self {u : UnpackedFloat} (h : Normal u) (f : u.isFinite = true) :
    NearestUnpacked (number u) u :=
  ⟨h, f, Rounds.self (representable_number h)⟩

theorem NearestUnpacked.zero (s : Sign) : NearestUnpacked 0 (.zero s) := ⟨trivial, rfl, Rounds.zero⟩

theorem apply_decreaseExponent (s : Sign) (m : ℕ) {e f : ℤ} (h : f ≤ e) :
    ((s.apply (decreaseExponent m e f).1 : ℤ) : ℚ) * 2 ^ f = s.apply m * 2 ^ e := by
  have hk : ((e - f).toNat : ℤ) = e - f := Int.toNat_of_nonneg (by omega)
  have hpow : (2 : ℚ) ^ (e - f).toNat * 2 ^ f = 2 ^ e := by
    rw [← zpow_natCast, hk, ← zpow_add₀ two_ne_zero, Int.sub_add_cancel]
  rw [← hpow]
  simp only [decreaseExponent, Nat.shiftLeft_eq]
  cases s
  · simp only [Sign.apply]
    push_cast
    ring
  · simp only [Sign.apply]
    push_cast
    ring

theorem add_unpacked_spec {u v : UnpackedFloat} (hu : Normal u) (hv : Normal v)
    (fu : u.isFinite = true) (fv : v.isFinite = true) :
    NearestUnpacked (number u + number v) (UnpackedFloat.add .binary64 u v) := by
  cases u with
  | infinity => simp [UnpackedFloat.isFinite] at fu
  | notANumber => simp [UnpackedFloat.isFinite] at fu
  | zero s =>
      rw [number_zero, zero_add]
      cases v with
      | infinity => simp [UnpackedFloat.isFinite] at fv
      | notANumber => simp [UnpackedFloat.isFinite] at fv
      | zero t => cases s <;> cases t <;> exact NearestUnpacked.zero _
      | finite t n f hn => exact NearestUnpacked.self hv fv
  | finite s m e hm =>
      cases v with
      | infinity => simp [UnpackedFloat.isFinite] at fv
      | notANumber => simp [UnpackedFloat.isFinite] at fv
      | zero t =>
          rw [number_zero, add_zero]
          exact NearestUnpacked.self hu fu
      | finite t n f hn =>
          have h := normalize_spec (s.apply (decreaseExponent m e (min e f)).1 +
            t.apply (decreaseExponent n f (min e f)).1) (min e f) .positive
          rw [Int.cast_add, add_mul, apply_decreaseExponent s m (min_le_left e f),
            apply_decreaseExponent t n (min_le_right e f)] at h
          exact h

theorem number_finite_neg (s : Sign) (m : ℕ) (e : ℤ) (h : 0 < m) :
    number (.finite (-s) m e h) = -number (.finite s m e h) := by
  cases s
  · show number (.finite .positive m e h) = _
    rw [number_positive, number_negative, neg_neg]
  · show number (.finite .negative m e h) = _
    rw [number_positive, number_negative]

theorem sub_unpacked_spec {u v : UnpackedFloat} (hu : Normal u) (hv : Normal v)
    (fu : u.isFinite = true) (fv : v.isFinite = true) :
    NearestUnpacked (number u - number v) (UnpackedFloat.sub .binary64 u v) := by
  cases u with
  | infinity => simp [UnpackedFloat.isFinite] at fu
  | notANumber => simp [UnpackedFloat.isFinite] at fu
  | zero s =>
      rw [number_zero, zero_sub]
      cases v with
      | infinity => simp [UnpackedFloat.isFinite] at fv
      | notANumber => simp [UnpackedFloat.isFinite] at fv
      | zero t =>
          rw [number_zero, neg_zero]
          cases s <;> cases t <;> exact NearestUnpacked.zero _
      | finite t n f hn =>
          rw [← number_finite_neg]
          exact NearestUnpacked.self hv rfl
  | finite s m e hm =>
      cases v with
      | infinity => simp [UnpackedFloat.isFinite] at fv
      | notANumber => simp [UnpackedFloat.isFinite] at fv
      | zero t =>
          rw [number_zero, sub_zero]
          exact NearestUnpacked.self hu fu
      | finite t n f hn =>
          have h := normalize_spec (s.apply (decreaseExponent m e (min e f)).1 -
            t.apply (decreaseExponent n f (min e f)).1) (min e f) .positive
          rw [Int.cast_sub, sub_mul, apply_decreaseExponent s m (min_le_left e f),
            apply_decreaseExponent t n (min_le_right e f)] at h
          exact h

theorem signed_mul (s t : Sign) (a b : ℚ) : signed s a * signed t b = signed (s * t) (a * b) := by
  cases s <;> cases t
  · exact neg_mul_neg a b
  · exact neg_mul a b
  · exact mul_neg a b
  · rfl

theorem signed_div (s t : Sign) (a b : ℚ) : signed s a / signed t b = signed (s / t) (a / b) := by
  cases s <;> cases t
  · exact neg_div_neg_eq a b
  · exact neg_div b a
  · exact div_neg a
  · rfl

theorem Canonical.mul_full {m n : ℕ} {e f : ℤ} (hm : Canonical m e) (hn : Canonical n f) :
    2 ^ 52 ≤ m * n ∨ e + f ≤ -1074 := by
  rcases hm.full with h | h
  · exact .inl (h.trans (Nat.le_mul_of_pos_right m hn.pos))
  · rcases hn.full with h' | h'
    · exact .inl (h'.trans (Nat.le_mul_of_pos_left n hm.pos))
    · right
      omega

theorem mul_unpacked_spec {u v : UnpackedFloat} (hu : Normal u) (hv : Normal v)
    (fu : u.isFinite = true) (fv : v.isFinite = true) :
    NearestUnpacked (number u * number v) (UnpackedFloat.mul .binary64 u v) := by
  cases u with
  | infinity => simp [UnpackedFloat.isFinite] at fu
  | notANumber => simp [UnpackedFloat.isFinite] at fu
  | zero s =>
      rw [number_zero, zero_mul]
      cases v with
      | infinity => simp [UnpackedFloat.isFinite] at fv
      | notANumber => simp [UnpackedFloat.isFinite] at fv
      | zero t => exact NearestUnpacked.zero _
      | finite t n f hn => exact NearestUnpacked.zero _
  | finite s m e hm =>
      cases v with
      | infinity => simp [UnpackedFloat.isFinite] at fv
      | notANumber => simp [UnpackedFloat.isFinite] at fv
      | zero t =>
          rw [number_zero, mul_zero]
          exact NearestUnpacked.zero _
      | finite t n f hn =>
          rw [number_finite, number_finite, signed_mul]
          exact mul_finite_spec s t hm hn (Canonical.mul_full hu hv)

theorem div_unpacked_spec {u v : UnpackedFloat} (fu : u.isFinite = true) (hv : number v ≠ 0) :
    NearestUnpacked (number u / number v) (UnpackedFloat.div .binary64 u v) := by
  cases v with
  | infinity => exact absurd rfl hv
  | notANumber => exact absurd rfl hv
  | zero => exact absurd rfl hv
  | finite t n f hn =>
      cases u with
      | infinity => simp [UnpackedFloat.isFinite] at fu
      | notANumber => simp [UnpackedFloat.isFinite] at fu
      | zero s =>
          rw [number_zero, zero_div]
          exact NearestUnpacked.zero _
      | finite s m e hm =>
          rw [number_finite, number_finite, signed_div]
          exact div_finite_spec s t hm hn

def largest : ℚ := (2 ^ 53 - 1) * 2 ^ (971 : ℤ)

theorem rounds_largest : Rounds largest largest :=
  Rounds.self ⟨2 ^ 53 - 1, 971, by norm_num, by norm_num, by norm_num [largest]⟩

theorem Rounds.abs_le_largest {q v : ℚ} (h : Rounds q v) (hq : |q| ≤ largest) : |v| ≤ largest := by
  rw [abs_le] at hq ⊢
  exact ⟨rounds_largest.neg.mono h hq.1, h.mono rounds_largest hq.2⟩

theorem abs_number_finite (s : Sign) (m : ℕ) (e : ℤ) (h : 0 < m) :
    |number (.finite s m e h)| = m * 2 ^ e := by
  rw [number_finite]
  cases s
  · rw [signed, abs_neg, abs_of_nonneg (by positivity)]
  · rw [signed, abs_of_nonneg (by positivity)]

theorem abs_rat_le_largest (x : Float) : |rat x| ≤ largest := by
  obtain ⟨hn, hf⟩ := normal_unpack x.toModel
  unfold rat
  cases hu : x.toModel.unpack with
  | infinity => norm_num [number, largest]
  | notANumber => norm_num [number, largest]
  | zero => norm_num [number, largest]
  | finite s m e hm =>
      rw [hu] at hn hf
      have hc : Canonical m e := hn
      have hm' : (m : ℚ) + 1 ≤ 2 ^ 53 := by exact_mod_cast hc.below
      have hm'' : (m : ℚ) ≤ 2 ^ 53 - 1 := by linarith
      have hpow : (2 : ℚ) ^ e ≤ 2 ^ (971 : ℤ) := zpow_le_zpow_right₀ (by norm_num) hf
      rw [abs_number_finite]
      exact mul_le_mul hm'' hpow (two_zpow_pos e).le (by norm_num)

theorem Normal.fits {u : UnpackedFloat} (hu : Normal u) (hv : |number u| ≤ largest) : Fits u := by
  cases u with
  | infinity => trivial
  | notANumber => trivial
  | zero => trivial
  | finite s m e hm =>
      have hc : Canonical m e := hu
      rw [abs_number_finite] at hv
      show e ≤ 971
      rcases hc.full with hf | hf
      · have hf' : (2 : ℚ) ^ (52 : ℤ) ≤ m := by exact_mod_cast hf
        have hlt : (2 : ℚ) ^ (52 + e) < 2 ^ ((53 : ℤ) + 971) := by
          calc (2 : ℚ) ^ (52 + e) = 2 ^ (52 : ℤ) * 2 ^ e := zpow_add₀ two_ne_zero _ _
            _ ≤ m * 2 ^ e := mul_le_mul_of_nonneg_right hf' (two_zpow_pos e).le
            _ ≤ largest := hv
            _ < 2 ^ (53 : ℤ) * 2 ^ (971 : ℤ) :=
                mul_lt_mul_of_pos_right (by norm_num) (two_zpow_pos 971)
            _ = _ := (zpow_add₀ two_ne_zero _ _).symm
        have := (zpow_lt_zpow_iff_right₀ (by norm_num : (1 : ℚ) < 2)).mp hlt
        omega
      · omega

/-- `x` is the finite double nearest to `q`. -/
structure Nearest (q : ℚ) (x : Float) : Prop where
  finite : x.isFinite = true
  rounds : Rounds q (rat x)

theorem NearestUnpacked.pack_of_fits {q : ℚ} {u : UnpackedFloat} (h : NearestUnpacked q u)
    (hu : Fits u) : Nearest q (.ofModel (.pack u)) := by
  have hu : (Float.ofModel (.pack u)).toModel.unpack = u := unpack_pack h.normal hu
  constructor
  · show (Float.ofModel (.pack u)).toModel.unpack.isFinite = true
    rw [hu]
    exact h.finite
  · rw [rat, hu]
    exact h.rounds

theorem NearestUnpacked.pack {q : ℚ} {u : UnpackedFloat} (h : NearestUnpacked q u)
    (hq : |q| ≤ largest) : Nearest q (.ofModel (.pack u)) :=
  h.pack_of_fits (h.normal.fits (h.rounds.abs_le_largest hq))

section operations

variable {x y : Float}

theorem nearest_add (hx : x.isFinite = true) (hy : y.isFinite = true)
    (h : |rat x + rat y| ≤ largest) : Nearest (rat x + rat y) (x + y) :=
  (add_unpacked_spec (normal_unpack x.toModel).1 (normal_unpack y.toModel).1 hx hy).pack h

theorem nearest_sub (hx : x.isFinite = true) (hy : y.isFinite = true)
    (h : |rat x - rat y| ≤ largest) : Nearest (rat x - rat y) (x - y) :=
  (sub_unpacked_spec (normal_unpack x.toModel).1 (normal_unpack y.toModel).1 hx hy).pack h

theorem nearest_mul (hx : x.isFinite = true) (hy : y.isFinite = true)
    (h : |rat x * rat y| ≤ largest) : Nearest (rat x * rat y) (x * y) :=
  (mul_unpacked_spec (normal_unpack x.toModel).1 (normal_unpack y.toModel).1 hx hy).pack h

theorem nearest_div (hx : x.isFinite = true) (hy : rat y ≠ 0)
    (h : |rat x / rat y| ≤ largest) : Nearest (rat x / rat y) (x / y) :=
  (div_unpacked_spec hx hy).pack h

theorem nearest_self (hx : x.isFinite = true) : Nearest (rat x) x :=
  ⟨hx, Rounds.self (representable_number (normal_unpack x.toModel).1)⟩

end operations

namespace Nearest

variable {q r : ℚ} {x y : Float}

theorem le (hx : Nearest q x) (hy : Nearest r y) (h : q ≤ r) : x ≤ y :=
  (le_iff hx.finite hy.finite).mpr (hx.rounds.mono hy.rounds h)

theorem rat_eq (h : Nearest q x) (hq : Representable q) : rat x = q :=
  h.rounds.unique (Rounds.self hq)

theorem eq (hx : Nearest q x) (hy : Nearest q y) (h₀ : rat x ≠ 0) : x = y :=
  eq_of_rat_eq (hx.rounds.unique hy.rounds) h₀

end Nearest

theorem compare_negative_infinity (u : UnpackedFloat) :
    u.compare (.infinity .negative) ≠ some .lt := by
  cases u with
  | infinity s => cases s <;> decide
  | notANumber => exact nofun
  | zero s => exact nofun
  | finite s m e h => cases s <;> exact nofun

theorem compare_positive_infinity (u : UnpackedFloat) :
    (UnpackedFloat.infinity .positive).compare u ≠ some .lt := by
  cases u with
  | infinity s => cases s <;> decide
  | notANumber => exact nofun
  | zero s => exact nofun
  | finite s m e h => exact nofun

theorem compare_notANumber (u : UnpackedFloat) :
    UnpackedFloat.notANumber.compare u ≠ some .lt := by
  cases u <;> exact nofun

/-- What lies strictly between two doubles is finite, whatever these two are. -/
theorem isFinite_of_lt_of_lt {a b x : Float} (ha : a < x) (hb : x < b) : x.isFinite = true := by
  have ha' : a.toModel.unpack.compare x.toModel.unpack = some .lt :=
    eq_of_beq (of_decide_eq_true ha)
  have hb' : x.toModel.unpack.compare b.toModel.unpack = some .lt :=
    eq_of_beq (of_decide_eq_true hb)
  show x.toModel.unpack.isFinite = true
  cases hx : x.toModel.unpack with
  | zero => rfl
  | finite => rfl
  | notANumber =>
      rw [hx] at hb'
      exact absurd hb' (compare_notANumber _)
  | infinity s =>
      rw [hx] at ha' hb'
      cases s
      · exact absurd ha' (compare_negative_infinity _)
      · exact absurd hb' (compare_positive_infinity _)

end RenderGate.Double
