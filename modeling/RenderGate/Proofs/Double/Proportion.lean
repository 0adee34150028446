import RenderGate.Proofs.Double.Sum

/-!
# Doubles between 0 and 1

A double that stands for a number between 0 and 1 is a proportion.  Rounding is monotone and leaves
0 and 1 alone, so it never leads out of this range: what is left of 1, a quotient of two numbers of
which the first is not larger, a part of a weight and a mean of proportions stay in it.
-/

namespace RenderGate.Double

structure Proportion (x : Float) : Prop where
  finite : x.isFinite = true
  rat_nonneg : 0 ≤ rat x
  rat_le_one : rat x ≤ 1

theorem isNaN_of_isFinite {x : Float} (h : x.isFinite = true) : x.isNaN = false := by
  have hx : x.toModel.unpack.isFinite = true := h
  show x.toModel.unpack.isNaN = false
  cases hu : x.toModel.unpack with
  | notANumber =>
      rw [hu] at hx
      exact absurd hx Bool.false_ne_true
  | _ => rfl

theorem proportion_zero : Proportion 0.0 := ⟨rfl, rat_zero.ge, rat_zero.trans_le zero_le_one⟩

theorem proportion_one : Proportion 1.0 := ⟨rfl, rat_one.symm ▸ zero_le_one, rat_one.le⟩

theorem Nearest.nonneg {q : ℚ} {x : Float} (h : Nearest q x) (hq : 0 ≤ q) : 0 ≤ rat x :=
  h.rounds.nonneg hq

theorem Nearest.le_of_representable {q v : ℚ} {x : Float} (h : Nearest q x) (hv : Representable v)
    (hq : q ≤ v) : rat x ≤ v :=
  h.rounds.mono (Rounds.self hv) hq

theorem Nearest.proportion {q : ℚ} {x : Float} (h : Nearest q x) (h₀ : 0 ≤ q) (h₁ : q ≤ 1) :
    Proportion x :=
  ⟨h.finite, h.nonneg h₀, by
    have hone := h.rounds.mono nearest_one.rounds h₁
    rwa [rat_one] at hone⟩

theorem Part.nearest_div {x y : Float} (h : Part x y) (hy : 0 < rat y) :
    Nearest (rat x / rat y) (x / y) := by
  refine Double.nearest_div h.finite hy.ne' ?_
  rw [abs_of_nonneg (div_nonneg h.nonneg hy.le)]
  exact ((div_le_one hy).mpr h.le).trans one_le_largest

/-- A part by its whole. -/
theorem Part.proportion_div {x y : Float} (h : Part x y) (hy : 0 < rat y) :
    Proportion (x / y) :=
  (h.nearest_div hy).proportion (div_nonneg h.nonneg hy.le) ((div_le_one hy).mpr h.le)

/-- The distance from 1 to the next smaller double. -/
theorem representable_gap : Representable (2 ^ (-53 : ℤ)) :=
  ⟨1, -53, by norm_num, by norm_num, by norm_num⟩

theorem representable_below_one : Representable (1 - 2 ^ (-53 : ℤ)) :=
  ⟨2 ^ 53 - 1, -53, by norm_num, by norm_num, by norm_num⟩

namespace Proportion

variable {x : Float}

theorem isNaN (h : Proportion x) : x.isNaN = false := isNaN_of_isFinite h.finite

theorem nonneg (h : Proportion x) : 0.0 ≤ x := by
  rw [le_iff rfl h.finite, rat_zero]
  exact h.rat_nonneg

theorem le_one (h : Proportion x) : x ≤ 1.0 := by
  rw [le_iff h.finite rfl, rat_one]
  exact h.rat_le_one

theorem nearest_one_sub (h : Proportion x) : Nearest (1 - rat x) (1.0 - x) := by
  have hsub := nearest_sub (x := 1.0) (y := x) rfl h.finite (by
    rw [rat_one, abs_of_nonneg (sub_nonneg.mpr h.rat_le_one)]
    linarith [h.rat_nonneg, one_le_largest])
  rwa [rat_one] at hsub

theorem one_sub (h : Proportion x) : Proportion (1.0 - x) :=
  h.nearest_one_sub.proportion (sub_nonneg.mpr h.rat_le_one) (by linarith [h.rat_nonneg])

/-- What is left of 1 is nothing only if the whole is taken. -/
theorem one_sub_eq_zero_iff (h : Proportion x) : 1.0 - x = 0.0 ↔ x = 1.0 := by
  constructor
  · intro hzero
    have hnot : ¬ rat x < 1 := by
      intro hlt
      have hpos := rat_sub_pos (x := 1.0) rfl h.finite (by
        rw [rat_one, abs_of_nonneg (sub_nonneg.mpr h.rat_le_one)]
        linarith [h.rat_nonneg, one_le_largest]) (by rwa [rat_one])
      rw [hzero, rat_zero] at hpos
      exact lt_irrefl 0 hpos
    have hrat : rat x = 1 := le_antisymm h.rat_le_one (not_lt.mp hnot)
    exact eq_of_rat_eq (hrat.trans rat_one.symm) (by rw [hrat]; norm_num)
  · rintro rfl
    decide

/-- What is taken from 1 shows if it is not smaller than the distance to the next double. -/
theorem one_sub_ne_one (h : Proportion x) (hx : 2 ^ (-53 : ℤ) ≤ rat x) :
    1.0 - x ≠ 1.0 := by
  intro hone
  have hle := h.nearest_one_sub.le_of_representable representable_below_one (by linarith)
  rw [hone, rat_one] at hle
  linarith [two_zpow_pos (-53)]

theorem nearest_mul (h : Proportion x) {w : Float} (hw : w.isFinite = true) :
    Nearest (rat x * rat w) (x * w) := by
  refine Double.nearest_mul h.finite hw ?_
  rw [abs_mul, abs_of_nonneg h.rat_nonneg]
  exact (mul_le_of_le_one_left (abs_nonneg _) h.rat_le_one).trans (abs_rat_le_largest w)

/-- The part of a weight that a proportion takes. -/
theorem part_mul (h : Proportion x) {w : Float} (hw : w.isFinite = true) (hw₀ : 0 ≤ rat w) :
    Part (x * w) w :=
  have hmul := h.nearest_mul hw
  ⟨hmul.finite, hmul.nonneg (mul_nonneg h.rat_nonneg hw₀),
    hmul.le_of_representable (representable_rat w) (mul_le_of_le_one_left hw₀ h.rat_le_one)⟩

end Proportion

section counts

variable {m n : ℕ}

/-- A fraction of counts that are doubles themselves is rounded only once. -/
theorem nearest_ofNat_div (hmn : m ≤ n) (hn : n ≤ 2 ^ 53) (h₀ : 0 < n) :
    Nearest (m / n) (Float.ofNat m / Float.ofNat n) := by
  have hpart : (m : ℚ) / n ≤ 1 := div_le_one_of_le₀ (by exact_mod_cast hmn) n.cast_nonneg
  have hm' := nearest_ofNat (n := m) (natCast_le_largest (by omega))
  have hrat := rat_ofNat (hmn.trans hn)
  have hrat' := rat_ofNat hn
  have hdiv := nearest_div (y := Float.ofNat n) hm'.finite (by
    rw [hrat']
    exact_mod_cast h₀.ne') (by
    rw [hrat, hrat', abs_of_nonneg (by positivity)]
    exact hpart.trans one_le_largest)
  rwa [hrat, hrat'] at hdiv

/-- Between the next smaller fraction of counts and 1 there is a double. -/
theorem rat_ofNat_div_le (hmn : m < n) (hn : n ≤ 2 ^ 53) :
    rat (Float.ofNat m / Float.ofNat n) ≤ 1 - 2 ^ (-53 : ℤ) := by
  have hn₀ : (0 : ℚ) < n := by exact_mod_cast Nat.zero_lt_of_lt hmn
  have hn₁ : (n : ℚ) ≤ 2 ^ 53 := by exact_mod_cast hn
  have hm₁ : (m : ℚ) ≤ n - 1 := by
    rw [le_sub_iff_add_le]
    exact_mod_cast hmn
  refine (nearest_ofNat_div hmn.le hn (Nat.zero_lt_of_lt hmn)).le_of_representable
    representable_below_one ?_
  rw [div_le_iff₀ hn₀, zpow_neg, sub_mul, one_mul]
  have hstep : (2 ^ (53 : ℤ))⁻¹ * (n : ℚ) ≤ 1 := by
    rw [inv_mul_le_iff₀ (by positivity), mul_one]
    exact_mod_cast hn₁
  linarith

/-- Between 0 and the least other fraction of counts there is a double. -/
theorem le_rat_ofNat_div (hm : m ≠ 0) (hmn : m ≤ n) (hn : n ≤ 2 ^ 53) :
    2 ^ (-53 : ℤ) ≤ rat (Float.ofNat m / Float.ofNat n) := by
  have h₀ : 0 < n := (Nat.pos_of_ne_zero hm).trans_le hmn
  have hn₀ : (0 : ℚ) < n := by exact_mod_cast h₀
  have hn₁ : (n : ℚ) ≤ 2 ^ 53 := by exact_mod_cast hn
  have hm₁ : (1 : ℚ) ≤ m := by exact_mod_cast Nat.one_le_iff_ne_zero.mpr hm
  refine (Rounds.self representable_gap).mono (nearest_ofNat_div hmn hn h₀).rounds ?_
  rw [le_div_iff₀ hn₀, zpow_neg, inv_mul_le_iff₀ (by positivity)]
  have hscaled : (2 : ℚ) ^ 53 * 1 ≤ 2 ^ 53 * m := mul_le_mul_of_nonneg_left hm₁ (by positivity)
  rw [mul_one] at hscaled
  exact_mod_cast hn₁.trans hscaled

theorem ofNat_div_ofNat_eq_one_iff (hmn : m ≤ n) (hn : n ≤ 2 ^ 53) (h₀ : 0 < n) :
    Float.ofNat m / Float.ofNat n = 1.0 ↔ m = n := by
  constructor
  · intro h
    by_contra hne
    have hle := rat_ofNat_div_le (Nat.lt_of_le_of_ne hmn hne) hn
    rw [h, rat_one] at hle
    linarith [two_zpow_pos (-53)]
  · rintro rfl
    have hm := nearest_ofNat (n := m) (natCast_le_largest (by omega))
    exact div_self_eq hm.finite (by linarith [hm.one_le (by exact_mod_cast h₀)])

theorem ofNat_div_ofNat_eq_zero_iff (hmn : m ≤ n) (hn : n ≤ 2 ^ 53) (h₀ : 0 < n) :
    Float.ofNat m / Float.ofNat n = 0.0 ↔ m = 0 := by
  constructor
  · intro h
    by_contra hne
    have hge := le_rat_ofNat_div hne hmn hn
    rw [h, rat_zero] at hge
    exact absurd hge (two_zpow_pos (-53)).not_ge
  · rintro rfl
    exact zero_div_eq (by
      rw [rat_ofNat hn]
      exact_mod_cast h₀)

theorem proportion_ofNat_div (hmn : m ≤ n) (hn : n ≤ 2 ^ 53) (h₀ : 0 < n) :
    Proportion (Float.ofNat m / Float.ofNat n) :=
  (nearest_ofNat_div hmn hn h₀).proportion (by positivity)
    (div_le_one_of_le₀ (by exact_mod_cast hmn) n.cast_nonneg)

/-- The least fraction of counts is not lost when it is taken from 1. -/
theorem one_sub_ofNat_div_eq_one_iff (hmn : m ≤ n) (hn : n ≤ 2 ^ 53) (h₀ : 0 < n) :
    1.0 - Float.ofNat m / Float.ofNat n = 1.0 ↔ m = 0 := by
  constructor
  · intro h
    by_contra hne
    exact (proportion_ofNat_div hmn hn h₀).one_sub_ne_one (le_rat_ofNat_div hne hmn hn) h
  · intro h
    rw [(ofNat_div_ofNat_eq_zero_iff hmn hn h₀).mpr h]
    decide

theorem one_sub_ofNat_div_eq_zero_iff (hmn : m ≤ n) (hn : n ≤ 2 ^ 53) (h₀ : 0 < n) :
    1.0 - Float.ofNat m / Float.ofNat n = 0.0 ↔ m = n := by
  rw [(proportion_ofNat_div hmn hn h₀).one_sub_eq_zero_iff, ofNat_div_ofNat_eq_one_iff hmn hn h₀]

end counts

/-- A sum of proportions does not exceed their number. -/
theorem foldl_add_le {xs : List Float} (hxs : ∀ x ∈ xs, Proportion x) {a : Float} {k : ℕ}
    (ha : a.isFinite = true) (h₀ : 0 ≤ rat a) (hk : rat a ≤ k)
    (hlen : k + xs.length ≤ 2 ^ 53) :
    (xs.foldl (· + ·) a).isFinite = true ∧ 0 ≤ rat (xs.foldl (· + ·) a) ∧
      rat (xs.foldl (· + ·) a) ≤ ((k + xs.length : ℕ) : ℚ) := by
  induction xs generalizing a k with
  | nil => exact ⟨ha, h₀, hk⟩
  | cons x xs ih =>
      have hx := hxs x List.mem_cons_self
      have hsum : rat a + rat x ≤ ((k + 1 : ℕ) : ℚ) := by
        push_cast
        linarith [hx.rat_le_one]
      have hnonneg : 0 ≤ rat a + rat x := add_nonneg h₀ hx.rat_nonneg
      rw [List.length_cons] at hlen ⊢
      have hadd := nearest_add ha hx.finite (by
        rw [abs_of_nonneg hnonneg]
        exact hsum.trans (natCast_le_largest (by omega)))
      have hle := hadd.le_of_representable (representable_natCast (n := k + 1) (by omega)) hsum
      rw [show k + (xs.length + 1) = k + 1 + xs.length by omega]
      exact ih (fun y hy => hxs y (List.mem_cons_of_mem x hy)) hadd.finite
        (hadd.nonneg hnonneg) hle (by omega)

end RenderGate.Double
