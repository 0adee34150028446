import RenderGate.Proofs.Double.Proportion
import RenderGate.Proofs.Double.Symmetry

/-!
# The order of results

Operations on doubles keep the order of what they are given, because rounding does: a product with a
weight, a sum and a quotient by something positive grow with their parts.  A sum of finite doubles
is always a number, possibly an infinite one, and a finite sum has finite terms.
-/

namespace RenderGate.Double

open Float.Model Float.Model.UnpackedFloat

theorem Rounds.abs {q v : ℚ} (h : Rounds q v) : Rounds |q| |v| := by
  rcases le_total 0 q with hq | hq
  · rwa [abs_of_nonneg hq, abs_of_nonneg (h.nonneg hq)]
  · have hv := h.neg.nonneg (neg_nonneg.mpr hq)
    rw [abs_of_nonpos hq, abs_of_nonpos (neg_nonneg.mp hv)]
    exact h.neg

section order

variable {x x' y y' w : Float}

theorem rat_add_le_add (hx : x.isFinite = true) (hy : y.isFinite = true)
    (hx' : x'.isFinite = true) (hy' : y'.isFinite = true) (h : (x + y).isFinite = true)
    (h' : (x' + y').isFinite = true) (hxx : rat x ≤ rat x') (hyy : rat y ≤ rat y') :
    rat (x + y) ≤ rat (x' + y') :=
  (nearest_add_of_isFinite hx hy h).rounds.mono (nearest_add_of_isFinite hx' hy' h').rounds
    (add_le_add hxx hyy)

theorem Proportion.rat_mul_le_mul (hx : Proportion x) (hx' : Proportion x')
    (hw : w.isFinite = true) (hw₀ : 0 ≤ rat w) (h : rat x ≤ rat x') :
    rat (x * w) ≤ rat (x' * w) :=
  (hx.nearest_mul hw).rounds.mono (hx'.nearest_mul hw).rounds (mul_le_mul_of_nonneg_right h hw₀)

/-- A weight of any sign bounds the part of it that a proportion takes. -/
theorem Proportion.between_mul (hx : Proportion x) (hw : w.isFinite = true) :
    0 ≤ rat w ∧ 0 ≤ rat (x * w) ∧ rat (x * w) ≤ rat w ∨
      rat w ≤ 0 ∧ rat w ≤ rat (x * w) ∧ rat (x * w) ≤ 0 := by
  have hmul := hx.nearest_mul hw
  rcases le_total 0 (rat w) with hw₀ | hw₀
  · have hpart := hx.part_mul hw hw₀
    exact .inl ⟨hw₀, hpart.nonneg, hpart.le⟩
  · have hnonpos : rat x * rat w ≤ 0 := mul_nonpos_of_nonneg_of_nonpos hx.rat_nonneg hw₀
    have hge : rat w ≤ rat x * rat w := by
      have := mul_le_mul_of_nonpos_right hx.rat_le_one hw₀
      rwa [one_mul] at this
    exact .inr ⟨hw₀, (Rounds.self (representable_rat w)).mono hmul.rounds hge,
      hmul.rounds.mono Rounds.zero hnonpos⟩

theorem Part.rat_div_le_div (hx : Part x y) (hx' : Part x' y) (hy : 0 < rat y)
    (h : rat x ≤ rat x') : rat (x / y) ≤ rat (x' / y) :=
  (hx.nearest_div hy).rounds.mono (hx'.nearest_div hy).rounds
    (div_le_div_of_nonneg_right h hy.le)

/-- A sum that is not larger in size than a finite one is finite. -/
theorem isFinite_add_of_abs_le (hx : x.isFinite = true) (hy : y.isFinite = true)
    (hx' : x'.isFinite = true) (hy' : y'.isFinite = true) (h' : (x' + y').isFinite = true)
    (h : |rat x + rat y| ≤ |rat x' + rat y'|) : (x + y).isFinite = true := by
  have hspec := add_unpacked_spec (normal_unpack x.toModel).1 (normal_unpack y.toModel).1 hx hy
  have hwhole := nearest_add_of_isFinite hx' hy' h'
  have hle := hspec.rounds.abs.mono hwhole.rounds.abs h
  exact (hspec.pack_of_fits (hspec.normal.fits (hle.trans (abs_rat_le_largest _)))).finite

/-- Where two weights have a finite sum, so have the parts that proportions take of them, whatever
the signs of the weights are. -/
theorem isFinite_add_mul {v u : Float} (hx : Proportion x) (hy : Proportion y)
    (hv : v.isFinite = true) (hu : u.isFinite = true) (h : (v + u).isFinite = true) :
    (x * v + y * u).isFinite = true := by
  have hxv := (hx.nearest_mul hv).finite
  have hyu := (hy.nearest_mul hu).finite
  have hv' := abs_le.mp (abs_rat_le_largest v)
  have hu' := abs_le.mp (abs_rat_le_largest u)
  rcases hx.between_mul hv with ⟨hv₀, hx₀, hx₁⟩ | ⟨hv₀, hx₁, hx₀⟩
  · rcases hy.between_mul hu with ⟨hu₀, hy₀, hy₁⟩ | ⟨hu₀, hy₁, hy₀⟩
    · refine isFinite_add_of_abs_le hxv hyu hv hu h ?_
      rw [abs_of_nonneg (add_nonneg hx₀ hy₀), abs_of_nonneg (add_nonneg hv₀ hu₀)]
      exact add_le_add hx₁ hy₁
    · exact (nearest_add hxv hyu (abs_le.mpr ⟨by linarith, by linarith⟩)).finite
  · rcases hy.between_mul hu with ⟨hu₀, hy₀, hy₁⟩ | ⟨hu₀, hy₁, hy₀⟩
    · exact (nearest_add hxv hyu (abs_le.mpr ⟨by linarith, by linarith⟩)).finite
    · refine isFinite_add_of_abs_le hxv hyu hv hu h ?_
      rw [abs_of_nonpos (add_nonpos hx₀ hy₀), abs_of_nonpos (add_nonpos hv₀ hu₀)]
      linarith

end order

section numbers

variable {x y : Float}

/-- What is too large for a double is infinite, which is a number. -/
theorem NearestUnpacked.isNaN_pack {q : ℚ} {u : UnpackedFloat} (h : NearestUnpacked q u) :
    (Float.ofModel (.pack u)).isNaN = false := by
  by_cases hf : Fits u
  · exact isNaN_of_isFinite (h.pack_of_fits hf).finite
  · cases u with
    | finite s m e hm =>
        have hpack : (Float.ofModel (.pack (.finite s m e hm))).toModel.unpack = .infinity s :=
          unpack_pack_overflow s hm (not_le.mp hf)
        show (Float.ofModel (.pack (.finite s m e hm))).toModel.unpack.isNaN = false
        rw [hpack]
        rfl
    | _ => exact absurd trivial hf

theorem isNaN_add (hx : x.isFinite = true) (hy : y.isFinite = true) : (x + y).isNaN = false :=
  (add_unpacked_spec (normal_unpack x.toModel).1 (normal_unpack y.toModel).1 hx hy).isNaN_pack

theorem isNaN_div (hx : x.isNaN = false) (hy : 0 < rat y) : (x / y).isNaN = false := by
  have hdiv : (x / y).toModel =
      .pack (UnpackedFloat.div .binary64 x.toModel.unpack y.toModel.unpack) := rfl
  by_cases hf : x.isFinite = true
  · exact (div_unpacked_spec hf hy.ne').isNaN_pack
  · have hx' : ¬ x.toModel.unpack.isFinite = true := hf
    have hn : x.toModel.unpack.isNaN = false := hx
    show (x / y).toModel.unpack.isNaN = false
    rw [hdiv]
    rw [rat] at hy
    generalize y.toModel.unpack = v at hy
    generalize x.toModel.unpack = u at hx' hn
    cases u with
    | zero s => exact absurd rfl hx'
    | finite s m e hm => exact absurd rfl hx'
    | notANumber => exact absurd hn.symm Bool.false_ne_true
    | infinity s =>
        cases v with
        | finite t n f hn =>
            show (pack (.infinity (s / t))).unpack.isNaN = false
            rw [unpack_pack_infinity]
            rfl
        | _ => exact absurd hy (lt_irrefl 0)

/-- A finite sum has finite terms, whatever their signs are. -/
theorem isFinite_of_isFinite_add (h : (x + y).isFinite = true) :
    x.isFinite = true ∧ y.isFinite = true := by
  have hsum : (Float.Model.pack (UnpackedFloat.add .binary64 x.toModel.unpack
      y.toModel.unpack)).unpack.isFinite = true := h
  show x.toModel.unpack.isFinite = true ∧ y.toModel.unpack.isFinite = true
  generalize x.toModel.unpack = u at hsum
  generalize y.toModel.unpack = v at hsum
  have hinf : ∀ s, ¬ (Float.Model.pack (.infinity s)).unpack.isFinite = true := by
    intro s
    rw [unpack_pack_infinity]
    exact Bool.false_ne_true
  have hnan : ¬ (Float.Model.pack .notANumber).unpack.isFinite = true := by decide
  cases u with
  | notANumber => exact absurd hsum hnan
  | infinity s =>
      cases v with
      | notANumber => exact absurd hsum hnan
      | infinity t =>
          cases s <;> cases t
          · exact absurd hsum (hinf .negative)
          · exact absurd hsum hnan
          · exact absurd hsum hnan
          · exact absurd hsum (hinf .positive)
      | zero t => exact absurd hsum (hinf s)
      | finite t n f hn => exact absurd hsum (hinf s)
  | zero s =>
      cases v with
      | notANumber => exact absurd hsum hnan
      | infinity t => exact absurd hsum (hinf t)
      | _ => exact ⟨rfl, rfl⟩
  | finite s m e hm =>
      cases v with
      | notANumber => exact absurd hsum hnan
      | infinity t => exact absurd hsum (hinf t)
      | _ => exact ⟨rfl, rfl⟩

/-- A number that is neither below 0 nor above 1 is a proportion. -/
theorem proportion_of_not_lt (hx : x.isNaN = false) (h₀ : ¬ x < 0.0) (h₁ : ¬ 1.0 < x) :
    Proportion x := by
  have hf : x.isFinite = true := by
    rw [lt_iff_compare] at h₀ h₁
    have hn : x.toModel.unpack.isNaN = false := hx
    show x.toModel.unpack.isFinite = true
    generalize x.toModel.unpack = u at h₀ h₁ hn
    cases u with
    | notANumber => exact absurd hn.symm Bool.false_ne_true
    | infinity s =>
        cases s
        · exact absurd rfl h₀
        · exact absurd rfl h₁
    | _ => rfl
  rw [lt_iff hf rfl, rat_zero] at h₀
  rw [lt_iff rfl hf, rat_one] at h₁
  exact ⟨hf, not_lt.mp h₀, not_lt.mp h₁⟩

end numbers

/-- Zero times a double that is not negative is a zero, and the negative one only for the negative
zero. -/
theorem zero_mul_spec {x : Float} (hx : x.isFinite = true) (h₀ : 0 ≤ rat x) :
    (0.0 * x = 0.0 ∨ 0.0 * x = -0.0) ∧ (0.0 * x = -0.0 → x = -0.0) := by
  have hf : x.toModel.unpack.isFinite = true := hx
  have hpack : x = .ofModel (.pack x.toModel.unpack) := by rw [pack_unpack]
  have hmul : 0.0 * x =
      .ofModel (.pack (UnpackedFloat.mul .binary64 (.zero .positive) x.toModel.unpack)) := rfl
  have hsign : (0.0 : Float) ≠ -0.0 := by decide
  rw [rat] at h₀
  rw [hmul]
  generalize x.toModel.unpack = u at hf h₀ hpack
  cases u with
  | infinity s => exact absurd hf Bool.false_ne_true
  | notANumber => exact absurd hf Bool.false_ne_true
  | zero s =>
      cases s
      · exact ⟨.inr rfl, fun _ => hpack⟩
      · exact ⟨.inl rfl, fun h => absurd h hsign⟩
  | finite s m e hm =>
      cases s
      · exact absurd h₀ (number_negative_neg m e hm).not_ge
      · exact ⟨.inl rfl, fun h => absurd h hsign⟩

/-- A sum of two zeros is the negative one only if both are. -/
theorem add_zeros {x y : Float} (hx : x = 0.0 ∨ x = -0.0) (hy : y = 0.0 ∨ y = -0.0) :
    (x + y = 0.0 ∨ x + y = -0.0) ∧ (x + y = -0.0 → x = -0.0 ∧ y = -0.0) := by
  rcases hx with rfl | rfl <;> rcases hy with rfl | rfl <;> decide

end RenderGate.Double
