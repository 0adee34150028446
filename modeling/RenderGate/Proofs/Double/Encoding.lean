import Mathlib
import RenderGate.Proofs.Double.Rounding

/-!
# The bits of a double

A double is unpacked into a sign, a mantissa and an exponent, computed with, and packed again.  What
is unpacked is in canonical form, packing and unpacking undo each other, and so a double is
determined by what it unpacks to.
-/

namespace RenderGate.Double

open Float.Model Float.Model.UnpackedFloat

/-- The form in which a double holds mantissa and exponent: the mantissa has 53 bits, or fewer where
the exponent is the least one. -/
structure Canonical (m : ℕ) (e : ℤ) : Prop where
  pos : 0 < m
  below : m < 2 ^ 53
  least : -1074 ≤ e
  full : 2 ^ 52 ≤ m ∨ e = -1074

/-- Mantissa and exponent, if there are any, are in canonical form. -/
def Normal : UnpackedFloat → Prop
  | .finite _ m e _ => Canonical m e
  | _ => True

/-- The exponent, if there is one, is not too large for a double. -/
def Fits : UnpackedFloat → Prop
  | .finite _ _ e _ => e ≤ 971
  | _ => True

theorem toNat_implicit_append {n : ℕ} (m : BitVec n) : (1#1 ++ m).toNat = 2 ^ n + m.toNat := by
  rw [BitVec.toNat_append, ← Nat.shiftLeft_add_eq_or_of_lt m.isLt]
  simp [Nat.shiftLeft_eq]

theorem exponentBias_binary64 : Format.binary64.exponentBias = 1023 := rfl

theorem unpack_full (s : Sign) {x : BitVec 11} (m : BitVec 52) (h₀ : x.toNat ≠ 0)
    (h₁ : x.toNat ≠ 2047) :
    unpack .binary64 (packComponents .binary64 s x m) =
      .finite s (2 ^ 52 + m.toNat) (x.toNat - 1075) (Nat.add_pos_left (Nat.two_pow_pos 52) _) := by
  have hz : ¬ x = 0#11 := fun h => h₀ (congrArg BitVec.toNat h)
  have hi : ¬ x = -1#11 := fun h => h₁ (congrArg BitVec.toNat h)
  simp only [UnpackedFloat.unpack, unpackMantissa_packComponents, unpackExponent_packComponents,
    unpackSign_packComponents, Sign.ofBitVec_toBitVec, hz, hi, if_false, toNat_implicit_append,
    exponentBias_binary64]
  rfl

theorem unpack_subnormal (s : Sign) {m : BitVec 52} (h : m.toNat ≠ 0) :
    unpack .binary64 (packComponents .binary64 s 0#11 m) =
      .finite s m.toNat (-1074) (Nat.pos_of_ne_zero h) := by
  have hz : ¬ m = 0#52 := fun e => h (congrArg BitVec.toNat e)
  have hi : ¬ 0#11 = -1#11 := by decide
  simp only [UnpackedFloat.unpack, unpackMantissa_packComponents, unpackExponent_packComponents,
    unpackSign_packComponents, Sign.ofBitVec_toBitVec, hz, hi, if_false, if_true, dif_neg,
    not_false_eq_true, exponentBias_binary64]
  rfl

theorem normal_unpack_packComponents (s : Sign) (x : BitVec 11) (m : BitVec 52) :
    Normal (unpack .binary64 (packComponents .binary64 s x m)) ∧
      Fits (unpack .binary64 (packComponents .binary64 s x m)) := by
  have hm : m.toNat < 2 ^ 52 := m.isLt
  have hx : x.toNat < 2 ^ 11 := x.isLt
  by_cases hi : x = -1#11
  · simp only [UnpackedFloat.unpack, unpackExponent_packComponents, hi, if_true]
    split <;> exact ⟨trivial, trivial⟩
  have hx₁ : x.toNat ≠ 2047 := fun h => hi (BitVec.eq_of_toNat_eq h)
  by_cases hx₀ : x.toNat = 0
  · obtain rfl : x = 0#11 := BitVec.eq_of_toNat_eq hx₀
    by_cases hm₀ : m.toNat = 0
    · obtain rfl : m = 0#52 := BitVec.eq_of_toNat_eq hm₀
      simp only [UnpackedFloat.unpack, unpackExponent_packComponents, unpackMantissa_packComponents,
        hi, if_false, if_true, dite_true]
      exact ⟨trivial, trivial⟩
    · rw [unpack_subnormal s hm₀]
      exact ⟨⟨Nat.pos_of_ne_zero hm₀, by omega, le_rfl, .inr rfl⟩, by simp only [Fits]; omega⟩
  · rw [unpack_full s m hx₀ hx₁]
    exact ⟨⟨by omega, by omega, by omega, .inl (by omega)⟩, by simp only [Fits]; omega⟩

theorem normal_unpack (f : Float.Model) : Normal f.unpack ∧ Fits f.unpack := by
  have h := normal_unpack_packComponents (Sign.ofBitVec (@unpackSign .binary64 f.toBits.toBitVec))
    (@unpackExponent .binary64 f.toBits.toBitVec) (@unpackMantissa .binary64 f.toBits.toBitVec)
  rwa [packComponents_unpackSign_unpackExponent_unpackMantissa] at h

theorem log2_eq_iff_full {m : ℕ} (h₀ : 0 < m) (h : m < 2 ^ 53) : m.log2 + 1 = 53 ↔ 2 ^ 52 ≤ m := by
  have h₁ : m.log2 < 53 := (Nat.log2_lt h₀.ne').mpr h
  have h₂ := Nat.le_log2 h₀.ne' (k := 52)
  omega

theorem pack_finite (s : Sign) {m : ℕ} {e : ℤ} (hm : 0 < m) (hl : -1074 ≤ e) (he : e ≤ 971) :
    UnpackedFloat.pack .binary64 (.finite s m e hm) =
      if m.log2 + 1 = 53 then
        packComponents .binary64 s (BitVec.ofNat 11 (e + 1075).toNat) (BitVec.ofNat 52 m)
      else packComponents .binary64 s 0#11 (BitVec.ofNat 52 m) := by
  have hb : (e + (Format.binary64.exponentBias : ℕ) + (52 : ℕ)).toNat = (e + 1075).toNat := by
    rw [exponentBias_binary64]
    congr 1
    omega
  simp only [UnpackedFloat.pack, hb]
  rw [if_neg (by norm_num; omega)]
  rfl

theorem unpack_pack_finite (s : Sign) {m : ℕ} {e : ℤ} (hc : Canonical m e) (he : e ≤ 971) :
    unpack .binary64 (UnpackedFloat.pack .binary64 (.finite s m e hc.pos)) =
      .finite s m e hc.pos := by
  have hl := hc.least
  have hlt := hc.below
  rw [pack_finite s hc.pos hl he]
  by_cases hfull : 2 ^ 52 ≤ m
  · have hx : (BitVec.ofNat 11 (e + 1075).toNat).toNat = (e + 1075).toNat := by
      rw [BitVec.toNat_ofNat, Nat.mod_eq_of_lt (by omega)]
    have hm : (BitVec.ofNat 52 m).toNat = m - 2 ^ 52 := by
      rw [BitVec.toNat_ofNat]
      omega
    rw [if_pos ((log2_eq_iff_full hc.pos hlt).mpr hfull),
      unpack_full s _ (by omega) (by omega)]
    congr 1 <;> omega
  · have hm : (BitVec.ofNat 52 m).toNat = m := by
      rw [BitVec.toNat_ofNat, Nat.mod_eq_of_lt (by omega)]
    rw [if_neg (fun h => hfull ((log2_eq_iff_full hc.pos hlt).mp h)),
      unpack_subnormal s (by rw [hm]; exact hc.pos.ne')]
    congr 1
    exact (hc.full.resolve_left hfull).symm

theorem unpack_pack {u : UnpackedFloat} (hn : Normal u) (hf : Fits u) :
    (Float.Model.pack u).unpack = u := by
  show unpack .binary64 (UnpackedFloat.pack .binary64 u) = u
  cases u with
  | infinity s =>
      simp [UnpackedFloat.pack, packedInfinity, UnpackedFloat.unpack]
  | notANumber => exact unpack_packedNaN
  | zero s => exact unpack_packedZero
  | finite s m e hm => exact unpack_pack_finite s hn hf

theorem unpack_pack_infinity (s : Sign) : (Float.Model.pack (.infinity s)).unpack = .infinity s :=
  unpack_pack trivial trivial

/-- What is too large for a double becomes infinite. -/
theorem unpack_pack_overflow (s : Sign) {m : ℕ} {e : ℤ} (hm : 0 < m) (he : 971 < e) :
    (Float.Model.pack (.finite s m e hm)).unpack = .infinity s := by
  have hb : (e + (Format.binary64.exponentBias : ℕ) + (52 : ℕ)).toNat = (e + 1075).toNat := by
    rw [exponentBias_binary64]
    congr 1
    omega
  have hpack : UnpackedFloat.pack .binary64 (.finite s m e hm) = packedInfinity .binary64 s := by
    simp only [UnpackedFloat.pack, hb]
    rw [if_pos (by norm_num; omega)]
  show unpack .binary64 (UnpackedFloat.pack .binary64 (.finite s m e hm)) = _
  rw [hpack]
  exact unpack_pack_infinity s

theorem pack_unpack (f : Float.Model) : Float.Model.pack f.unpack = f :=
  congrArg Float.toModel (Float.ofBits_toBits (.ofModel f))

theorem eq_of_unpack_eq {x y : Float} (h : x.toModel.unpack = y.toModel.unpack) : x = y := by
  have hbits := (unpack_inj_of_valid x.toModel.valid y.toModel.valid).mp h
  exact Float.toBits_inj.mp (UInt64.toBitVec_inj.mp hbits)

end RenderGate.Double
