import RenderGate.Proofs.Double.Proportion

/-!
# The distance of two doubles

Two doubles that differ are apart by at least the last place of the larger one, which is more than
its `2 ^ 53`-th part.  So no quotient of different doubles is rounded to 1.  Doubles that stand for
natural numbers up to `2 ^ 53` have differences that are not rounded at all; of larger ones the
smaller may be lost in the difference.
-/

namespace RenderGate.Double

/-- Two doubles are multiples of one power of two, and at least one of them is a small multiple. -/
theorem Representable.exists_common {a b : ℚ} (ha : Representable a) (hb : Representable b) :
    ∃ (n k t : ℤ), a = n * 2 ^ t ∧ b = k * 2 ^ t ∧ (n < 2 ^ 53 ∨ k < 2 ^ 53) := by
  obtain ⟨n, e, hn, -, rfl⟩ := ha
  obtain ⟨k, f, hk, -, rfl⟩ := hb
  have hscale : ∀ (m : ℤ) {d t : ℤ}, t ≤ d →
      (m : ℚ) * 2 ^ d = ((m * 2 ^ (d - t).toNat : ℤ) : ℚ) * 2 ^ t := by
    intro m d t hle
    have htoNat : ((d - t).toNat : ℤ) = d - t := Int.toNat_of_nonneg (by omega)
    have hpow : (2 : ℚ) ^ (d - t).toNat * 2 ^ t = 2 ^ d := by
      rw [← zpow_natCast, htoNat, ← zpow_add₀ two_ne_zero, Int.sub_add_cancel]
    rw [← hpow]
    push_cast
    ring
  rcases le_total e f with hef | hfe
  · exact ⟨n, k * 2 ^ (f - e).toNat, e, rfl, hscale k hef, .inl (abs_lt.mp hn).2⟩
  · exact ⟨n * 2 ^ (e - f).toNat, k, f, hscale n hfe, rfl, .inr (abs_lt.mp hk).2⟩

/-- A double is apart from every smaller one by at least its `2 ^ 53`-th part. -/
theorem Representable.gap {a b : ℚ} (ha : Representable a) (hb : Representable b) (h₀ : 0 ≤ b)
    (h : b < a) : a * 2 ^ (-53 : ℤ) ≤ a - b := by
  obtain ⟨n, k, t, rfl, rfl, hsmall⟩ := ha.exists_common hb
  have ht := two_zpow_pos t
  have hkn : k < n := by exact_mod_cast lt_of_mul_lt_mul_right h ht.le
  have hstep : (k : ℚ) + 1 ≤ n := by exact_mod_cast hkn
  have hmantissa : (n : ℚ) * 2 ^ (-53 : ℤ) ≤ n - k := by
    rw [zpow_neg, ← div_eq_mul_inv, div_le_iff₀ (by positivity)]
    rcases hsmall with hn | hk
    · have hn' : (n : ℚ) < 2 ^ 53 := by exact_mod_cast hn
      have hone : (1 : ℚ) ≤ n - k := by linarith
      have hscaled : (1 : ℚ) * 2 ^ (53 : ℤ) ≤ (n - k) * 2 ^ (53 : ℤ) :=
        mul_le_mul_of_nonneg_right hone (by positivity)
      have hpow : (2 : ℚ) ^ (53 : ℤ) = 2 ^ 53 := by norm_num
      linarith
    · have hk' : (k : ℚ) + 1 ≤ 2 ^ 53 := by exact_mod_cast hk
      have hpow : (2 : ℚ) ^ (53 : ℤ) = 2 ^ 53 := by norm_num
      rw [hpow]
      linarith
  calc (n : ℚ) * 2 ^ t * 2 ^ (-53 : ℤ) = n * 2 ^ (-53 : ℤ) * 2 ^ t := by ring
    _ ≤ (n - k) * 2 ^ t := mul_le_mul_of_nonneg_right hmantissa ht.le
    _ = n * 2 ^ t - k * 2 ^ t := sub_mul _ _ _

/-- The `2 ^ 53`-th part of a double that is not tiny is a double. -/
theorem Representable.scaled {a : ℚ} (ha : Representable a) (h : 1 ≤ a) :
    Representable (a * 2 ^ (-53 : ℤ)) := by
  obtain ⟨n, e, hn, -, rfl⟩ := ha
  refine ⟨n, e - 53, hn, ?_, ?_⟩
  · have hn' : (n : ℚ) < 2 ^ (53 : ℤ) := by exact_mod_cast (abs_lt.mp hn).2
    have hlt : (2 : ℚ) ^ (0 : ℤ) < 2 ^ (53 + e) := by
      rw [zpow_zero, zpow_add₀ two_ne_zero]
      exact h.trans_lt (mul_lt_mul_of_pos_right hn' (two_zpow_pos e))
    have := (zpow_lt_zpow_iff_right₀ (by norm_num : (1 : ℚ) < 2)).mp hlt
    omega
  · rw [mul_assoc, ← zpow_add₀ two_ne_zero]
    rfl

/-- A part of something positive makes a quotient of 1 only if it is the whole. -/
theorem Part.div_eq_one_iff {x y : Float} (h : Part x y) (hy : 0 < rat y) :
    x / y = 1.0 ↔ rat x = rat y := by
  have hdiv := h.nearest_div hy
  constructor
  · intro hone
    by_contra hne
    have hgap := (representable_rat y).gap (representable_rat x) h.nonneg (lt_of_le_of_ne h.le hne)
    have hle := hdiv.le_of_representable representable_below_one (by
      rw [div_le_iff₀ hy]
      linarith)
    rw [hone, rat_one] at hle
    linarith [two_zpow_pos (-53)]
  · intro heq
    rw [heq, div_self hy.ne'] at hdiv
    exact (nearest_one.eq hdiv (by rw [rat_one]; norm_num)).symm

structure Whole (x : Float) : Prop where
  finite : x.isFinite = true
  eq_natCast : ∃ n : ℕ, rat x = n

namespace Whole

variable {x y : Float}

theorem nonneg (h : Whole x) : 0 ≤ rat x := by
  obtain ⟨n, hn⟩ := h.eq_natCast
  rw [hn]
  exact n.cast_nonneg

theorem one_le (h : Whole x) (h₀ : rat x ≠ 0) : 1 ≤ rat x := by
  obtain ⟨n, hn⟩ := h.eq_natCast
  rw [hn] at h₀ ⊢
  exact_mod_cast Nat.one_le_iff_ne_zero.mpr (by exact_mod_cast h₀)

/-- The difference of two small ones is a double. -/
theorem representable_sub (hx : Whole x) (hy : Whole y) (hx₁ : rat x ≤ 2 ^ 53)
    (hy₁ : rat y ≤ 2 ^ 53) : Representable |rat x - rat y| := by
  obtain ⟨m, hm⟩ := hx.eq_natCast
  obtain ⟨n, hn⟩ := hy.eq_natCast
  rw [hm] at hx₁ ⊢
  rw [hn] at hy₁ ⊢
  have hm' : m ≤ 2 ^ 53 := by exact_mod_cast hx₁
  have hn' : n ≤ 2 ^ 53 := by exact_mod_cast hy₁
  have hdiff : |(m : ℚ) - n| = (((m : ℤ) - n).natAbs : ℕ) := by
    rw [Nat.cast_natAbs]
    push_cast
    rfl
  rw [hdiff]
  exact representable_natCast (by omega)

end Whole

theorem whole_ofNat {n : ℕ} (h : n ≤ 2 ^ 53) : Whole (Float.ofNat n) :=
  ⟨(nearest_ofNat (natCast_le_largest (by omega))).finite, n, rat_ofNat h⟩

end RenderGate.Double
