import RenderGate.Proofs.Double.Symmetry

/-!
# Equality as numbers

Doubles are compared bit for bit or as numbers.  NaN is no number and differs from itself; apart
from it the two ways tell the same doubles apart, but for zero and negative zero, which are one
number with two signs (`beq_iff`).  So doubles are equal as numbers just if they are the same once
zeros have lost their sign.
-/

namespace RenderGate.Double

open Float.Model

def OppositeZeros (x y : Float) : Prop := x = 0.0 ∧ y = -0.0 ∨ x = -0.0 ∧ y = 0.0

instance (x y : Float) : Decidable (OppositeZeros x y) :=
  inferInstanceAs (Decidable (x = 0.0 ∧ y = -0.0 ∨ x = -0.0 ∧ y = 0.0))

/-- A double where a zero has lost its sign. -/
def unsigned (x : Float) : Float := if x = -0.0 then 0.0 else x

variable {x y : Float}

theorem toBits_beq_iff : (x.toBits == y.toBits) = true ↔ x = y :=
  beq_iff_eq.trans Float.toBits_inj

theorem beq_iff_compare :
    (x == y) = true ↔ x.toModel.unpack.compare y.toModel.unpack = some .eq := by
  show (x.toModel.unpack.compare y.toModel.unpack == some .eq) = true ↔ _
  exact beq_iff_eq

theorem not_oppositeZeros_self : ¬ OppositeZeros x x := by
  rintro (⟨h, h'⟩ | ⟨h, h'⟩) <;> exact absurd (h.symm.trans h') (by decide)

theorem eq_zeros_of_rat_eq_zero (hx : x.isFinite = true) (h : rat x = 0) : x = 0.0 ∨ x = -0.0 := by
  have hf : x.toModel.unpack.isFinite = true := hx
  have hpack : x = .ofModel (.pack x.toModel.unpack) := by rw [pack_unpack]
  rw [rat] at h
  rw [hpack]
  generalize x.toModel.unpack = u at hf h
  cases u with
  | infinity => exact absurd hf Bool.false_ne_true
  | notANumber => exact absurd hf Bool.false_ne_true
  | zero s =>
      cases s
      · exact .inr rfl
      · exact .inl rfl
  | finite s m e hm =>
      cases s
      · exact absurd h (number_negative_neg m e hm).ne
      · exact absurd h (number_positive_pos m e hm).ne'

theorem compare_self {u : UnpackedFloat} (h : u ≠ .notANumber) : u.compare u = some .eq := by
  cases u with
  | notANumber => exact absurd rfl h
  | infinity s => cases s <;> rfl
  | zero s => rfl
  | finite s m e hm => cases s <;> simp [UnpackedFloat.compare]

/-- Beyond the finite numbers only the same are equal. -/
theorem eq_of_compare_eq {u v : UnpackedFloat} (h : u.compare v = some .eq)
    (hf : ¬ (u.isFinite = true ∧ v.isFinite = true)) : u = v := by
  cases u with
  | notANumber => exact absurd h nofun
  | infinity s =>
      cases v with
      | infinity t =>
          cases s <;> cases t
          · rfl
          · exact absurd h (by decide)
          · exact absurd h (by decide)
          · rfl
      | _ => cases s <;> exact absurd h nofun
  | zero s | finite s m e hm =>
      cases v with
      | notANumber => exact absurd h (by rw [compare_notANumber_right]; exact nofun)
      | infinity t =>
          rw [compare_infinity rfl] at h
          cases t <;> exact absurd h (by decide)
      | _ => exact absurd ⟨rfl, rfl⟩ hf

/-- Two numbers are equal just if they are the same double, or zeros with opposite signs. -/
theorem beq_iff (hx : x.isNaN = false) : (x == y) = true ↔ x = y ∨ OppositeZeros x y := by
  rw [beq_iff_compare]
  constructor
  · intro h
    by_cases hf : x.isFinite = true ∧ y.isFinite = true
    · obtain ⟨fx, fy⟩ := hf
      rw [compare_eq_compare_number (normal_unpack x.toModel).1 (normal_unpack y.toModel).1 fx fy,
        Option.some.injEq, compare_eq_iff_eq] at h
      by_cases h₀ : rat x = 0
      · have hy₀ : rat y = 0 := (show rat x = rat y from h) ▸ h₀
        rcases eq_zeros_of_rat_eq_zero fx h₀ with hx' | hx' <;>
          rcases eq_zeros_of_rat_eq_zero fy hy₀ with hy' | hy'
        · exact .inl (hx'.trans hy'.symm)
        · exact .inr (.inl ⟨hx', hy'⟩)
        · exact .inr (.inr ⟨hx', hy'⟩)
        · exact .inl (hx'.trans hy'.symm)
      · exact .inl (eq_of_rat_eq h h₀)
    · exact .inl (eq_of_unpack_eq (eq_of_compare_eq h hf))
  · rintro (rfl | ⟨rfl, rfl⟩ | ⟨rfl, rfl⟩)
    · exact compare_self fun h => absurd (isNaN_iff.mpr h) (by rw [hx]; exact Bool.false_ne_true)
    · decide
    · decide

theorem unsigned_eq_iff : unsigned x = unsigned y ↔ x = y ∨ OppositeZeros x y := by
  have hsign : (0.0 : Float) ≠ -0.0 := by decide
  unfold unsigned OppositeZeros
  by_cases hx : x = -0.0 <;> by_cases hy : y = -0.0
  · simp [hx, hy]
  · simp [hx, hy, eq_comm]
  · simp [hx, hy]
  · simp [hx, hy]

end RenderGate.Double
