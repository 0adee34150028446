import Mathlib.Algebra.Order.Archimedean.Basic
import Mathlib.Data.Rat.Floor
import Mathlib.Tactic.FieldSimp
import Mathlib.Tactic.Linarith
import Mathlib.Tactic.Positivity
import Mathlib.Tactic.Ring

/-!
# Rounding of rational numbers

`Rounds q v` says that `v` is the number with a mantissa of 53 bits that is nearest to `q`, where of
two equally near ones the even mantissa counts, and no exponent lies below the least one. Only the
sign of a zero and the overflow of large exponents are left to the doubles themselves.

Rounding is a relation here, so that it is symmetric about zero by definition. It is monotone
(`Rounds.mono`), which also makes it unique, and it leaves alone whatever a double can hold
(`Rounds.self`).
-/

namespace RenderGate.Double

/-- `n` is the integer nearest to `q`, and the even one of two that are equally near. -/
structure NearestEven (q : ℚ) (n : ℤ) : Prop where
  near : |q - n| ≤ 1 / 2
  even : |q - n| = 1 / 2 → Even n

namespace NearestEven

theorem neg {q : ℚ} {n : ℤ} (h : NearestEven q n) : NearestEven (-q) (-n) := by
  have hd : |-q - ((-n : ℤ) : ℚ)| = |q - n| := by
    rw [Int.cast_neg, ← abs_neg]
    congr 1
    ring
  exact ⟨hd ▸ h.near, fun e => (h.even (hd ▸ e)).neg⟩

theorem self (n : ℤ) : NearestEven n n := ⟨by norm_num, fun h => by norm_num at h⟩

theorem mono {q r : ℚ} {n k : ℤ} (hq : NearestEven q n) (hr : NearestEven r k) (h : q ≤ r) :
    n ≤ k := by
  by_contra hlt
  have hstep : (k : ℚ) + 1 ≤ n := by exact_mod_cast (not_le.mp hlt)
  obtain ⟨hq₁, hq₂⟩ := abs_le.mp hq.near
  obtain ⟨hr₁, hr₂⟩ := abs_le.mp hr.near
  -- Both numbers lie half way between `k` and `n`, which are neighbours, yet both are even.
  have hn : (n : ℚ) = k + 1 := by linarith
  have hqn : |q - n| = 1 / 2 := by
    rw [abs_of_nonpos (by linarith)]
    linarith
  have hrk : |r - k| = 1 / 2 := by
    rw [abs_of_nonneg (by linarith)]
    linarith
  have hsucc : n = k + 1 := by exact_mod_cast hn
  have heven := hq.even hqn
  rw [hsucc] at heven
  exact (Int.even_add_one.mp heven) (hr.even hrk)

end NearestEven

/-- The exponent of the last place of a mantissa with 53 bits for numbers of the size of `q`. -/
structure Quantum (q : ℚ) (t : ℤ) : Prop where
  least : -1074 ≤ t
  below : |q| < 2 ^ (t + 53)
  above : 2 ^ (t + 52) ≤ |q| ∨ t = -1074

/-- `v` is the number with a mantissa of 53 bits that is nearest to `q`. -/
def Rounds (q v : ℚ) : Prop :=
  ∃ (t : ℤ) (n : ℤ), Quantum q t ∧ NearestEven (q / 2 ^ t) n ∧ v = n * 2 ^ t

/-- A number that a mantissa of 53 bits can hold. -/
def Representable (v : ℚ) : Prop := ∃ (n e : ℤ), |n| < 2 ^ 53 ∧ -1074 ≤ e ∧ v = n * 2 ^ e

theorem two_zpow_pos (t : ℤ) : (0 : ℚ) < 2 ^ t := zpow_pos (by norm_num) t

theorem Quantum.neg {q : ℚ} {t : ℤ} (h : Quantum q t) : Quantum (-q) t :=
  ⟨h.least, by simpa using h.below, by simpa using h.above⟩

theorem Quantum.mono {q r : ℚ} {t u : ℤ} (hq : Quantum q t) (hr : Quantum r u) (h : |q| ≤ |r|) :
    t ≤ u := by
  rcases hq.above with ha | rfl
  · have hlt : (2 : ℚ) ^ (t + 52) < 2 ^ (u + 53) := lt_of_le_of_lt (ha.trans h) hr.below
    have := (zpow_lt_zpow_iff_right₀ (by norm_num : (1 : ℚ) < 2)).mp hlt
    omega
  · exact hr.least

/-- The nearest mantissa has at most 53 bits, where `2 ^ 53` itself may be reached from below. -/
theorem Quantum.nearest_le {q : ℚ} {t n : ℤ} (ht : Quantum q t) (hn : NearestEven (q / 2 ^ t) n) :
    n ≤ 2 ^ 53 := by
  refine hn.mono (NearestEven.self (2 ^ 53)) ?_
  rw [div_le_iff₀ (two_zpow_pos t)]
  have hb := (le_abs_self q).trans_lt ht.below
  rw [zpow_add₀ two_ne_zero] at hb
  push_cast
  linarith

theorem Quantum.le_nearest {q : ℚ} {t n : ℤ} (ht : Quantum q t) (hn : NearestEven (q / 2 ^ t) n)
    (h₀ : 0 ≤ q) : 2 ^ 52 ≤ n ∨ t = -1074 := by
  refine ht.above.imp_left fun ha => ?_
  refine NearestEven.mono (NearestEven.self (2 ^ 52)) hn ?_
  rw [le_div_iff₀ (two_zpow_pos t)]
  rw [abs_of_nonneg h₀, zpow_add₀ two_ne_zero] at ha
  push_cast
  linarith

theorem exists_quantum (q : ℚ) : ∃ t, Quantum q t := by
  by_cases hq : q = 0
  · exact ⟨-1074, le_rfl, by rw [hq, abs_zero]; exact two_zpow_pos _, .inr rfl⟩
  obtain ⟨k, hk₁, hk₂⟩ := exists_mem_Ico_zpow (abs_pos.mpr hq) (by norm_num : (1 : ℚ) < 2)
  refine ⟨max (k - 52) (-1074), le_max_right _ _, ?_, ?_⟩
  · refine hk₂.trans_le (zpow_le_zpow_right₀ (by norm_num) ?_)
    omega
  · rcases le_total (-1074) (k - 52) with h | h
    · left
      rwa [max_eq_left h, Int.sub_add_cancel]
    · exact .inr (max_eq_right h)

namespace Rounds

theorem neg {q v : ℚ} (h : Rounds q v) : Rounds (-q) (-v) := by
  obtain ⟨t, n, ht, hn, rfl⟩ := h
  refine ⟨t, -n, ht.neg, ?_, by push_cast; ring⟩
  rw [neg_div]
  exact hn.neg

theorem nonneg {q v : ℚ} (h : Rounds q v) (hq : 0 ≤ q) : 0 ≤ v := by
  obtain ⟨t, n, -, hn, rfl⟩ := h
  have : (0 : ℤ) ≤ n := by
    refine NearestEven.mono (NearestEven.self 0) hn ?_
    rw [Int.cast_zero]
    exact div_nonneg hq (two_zpow_pos t).le
  have : (0 : ℚ) ≤ n := by exact_mod_cast this
  exact mul_nonneg this (two_zpow_pos t).le

/-- Numbers of smaller size have a smaller last place, so the larger number rounds to at least the
power of two that bounds the smaller one. -/
theorem mono_of_nonneg {q r v w : ℚ} (hq : Rounds q v) (hr : Rounds r w) (h₀ : 0 ≤ q)
    (h : q ≤ r) : v ≤ w := by
  obtain ⟨t, n, ht, hn, rfl⟩ := hq
  obtain ⟨u, k, hu, hk, rfl⟩ := hr
  have htu : t ≤ u := ht.mono hu (by rwa [abs_of_nonneg h₀, abs_of_nonneg (h₀.trans h)])
  rcases htu.eq_or_lt with rfl | hlt
  · have hnk : n ≤ k := hn.mono hk (div_le_div_of_nonneg_right h (two_zpow_pos t).le)
    have hnk' : (n : ℚ) ≤ k := by exact_mod_cast hnk
    exact mul_le_mul_of_nonneg_right hnk' (two_zpow_pos t).le
  · have hn' : n ≤ 2 ^ 53 := ht.nearest_le hn
    have hk' : (2 : ℤ) ^ 52 ≤ k := by
      refine (hu.le_nearest hk (h₀.trans h)).resolve_right ?_
      have := ht.least
      omega
    have hn'' : (n : ℚ) ≤ 2 ^ 53 := by exact_mod_cast hn'
    have hk'' : (2 : ℚ) ^ 52 ≤ k := by exact_mod_cast hk'
    have hpow : (2 : ℚ) ^ (t + 1) ≤ 2 ^ u := zpow_le_zpow_right₀ (by norm_num) hlt
    calc (n : ℚ) * 2 ^ t ≤ 2 ^ 53 * 2 ^ t := mul_le_mul_of_nonneg_right hn'' (two_zpow_pos t).le
      _ = 2 ^ 52 * 2 ^ (t + 1) := by rw [zpow_add₀ two_ne_zero, zpow_one]; ring
      _ ≤ 2 ^ 52 * 2 ^ u := mul_le_mul_of_nonneg_left hpow (by positivity)
      _ ≤ k * 2 ^ u := mul_le_mul_of_nonneg_right hk'' (two_zpow_pos u).le

/-- Rounding keeps the order. -/
theorem mono {q r v w : ℚ} (hq : Rounds q v) (hr : Rounds r w) (h : q ≤ r) : v ≤ w := by
  rcases le_total 0 q with h₀ | h₀
  · exact hq.mono_of_nonneg hr h₀ h
  rcases le_total 0 r with h₁ | h₁
  · have hv := hq.neg.nonneg (neg_nonneg.mpr h₀)
    have hw := hr.nonneg h₁
    linarith
  · have := hr.neg.mono_of_nonneg hq.neg (neg_nonneg.mpr h₁) (neg_le_neg h)
    linarith

theorem unique {q v w : ℚ} (hv : Rounds q v) (hw : Rounds q w) : v = w :=
  le_antisymm (hv.mono hw le_rfl) (hw.mono hv le_rfl)

/-- What a mantissa of 53 bits can hold is not changed by rounding. -/
theorem self {v : ℚ} (h : Representable v) : Rounds v v := by
  obtain ⟨n, e, hn, he, rfl⟩ := h
  obtain ⟨t, ht⟩ := exists_quantum (n * 2 ^ e)
  have hte : t ≤ e := by
    rcases ht.above with ha | rfl
    · have hn' : |(n : ℚ)| < 2 ^ (53 : ℤ) := by exact_mod_cast hn
      rw [abs_mul, abs_of_pos (two_zpow_pos e)] at ha
      have hlt : (2 : ℚ) ^ (t + 52) < 2 ^ (53 + e) := by
        rw [zpow_add₀ two_ne_zero 53 e]
        exact ha.trans_lt (mul_lt_mul_of_pos_right hn' (two_zpow_pos e))
      have := (zpow_lt_zpow_iff_right₀ (by norm_num : (1 : ℚ) < 2)).mp hlt
      omega
    · exact he
  have hint : (n : ℚ) * 2 ^ e / 2 ^ t = ((n * 2 ^ (e - t).toNat : ℤ) : ℚ) := by
    have hk : ((e - t).toNat : ℤ) = e - t := Int.toNat_of_nonneg (by omega)
    rw [mul_div_assoc, ← zpow_sub₀ two_ne_zero, show (2 : ℚ) ^ (e - t) = 2 ^ (e - t).toNat by
      rw [← zpow_natCast, hk]]
    push_cast
    ring
  refine ⟨t, n * 2 ^ (e - t).toNat, ht, ?_, ?_⟩
  · rw [hint]
    exact NearestEven.self _
  · rw [← hint, div_mul_cancel₀ _ (two_zpow_pos t).ne']

/-- Doubling a number that is not tiny doubles what it rounds to. -/
theorem two_mul {q v : ℚ} (h : Rounds q v) (hq : 1 ≤ |q|) : Rounds (2 * q) (2 * v) := by
  obtain ⟨t, n, ht, hn, rfl⟩ := h
  refine ⟨t + 1, n, ⟨by have := ht.least; omega, ?_, .inl ?_⟩, ?_, ?_⟩
  · have hb := ht.below
    rw [abs_mul, abs_two, show t + 1 + 53 = 1 + (t + 53) by ring, zpow_add₀ two_ne_zero, zpow_one]
    linarith
  · have ha : (2 : ℚ) ^ (t + 52) ≤ |q| := by
      refine ht.above.elim id fun h => ?_
      rw [h]
      exact (zpow_le_one_of_nonpos₀ (by norm_num) (by norm_num)).trans hq
    rw [abs_mul, abs_two, show t + 1 + 52 = 1 + (t + 52) by ring, zpow_add₀ two_ne_zero, zpow_one]
    linarith
  · rw [zpow_add₀ two_ne_zero, zpow_one, mul_comm, mul_div_mul_right _ _ two_ne_zero]
    exact hn
  · rw [zpow_add₀ two_ne_zero, zpow_one]
    ring

end Rounds

end RenderGate.Double
