import RenderGate.Proofs.Double.Exact

/-!
# Sums of doubles

A sum of ones is exact as long as it is small.  A sum of doubles that are not negative is again not
negative: it is a finite double or, where it grows too large, infinite, but never without a value.
-/

namespace RenderGate.Double

open Float.Model Float.Model.UnpackedFloat

/-- A sum of ones is exact as long as it is small. -/
theorem nearest_foldl_ones {k : ℕ} (hk : k ≤ 2 ^ 53) :
    Nearest k ((List.replicate k (1.0 : Float)).foldl (· + ·) 0.0) := by
  induction k with
  | zero => exact nearest_zero
  | succ k ih =>
      have hsum := ih (by omega)
      have hrat := hsum.rat_eq (representable_natCast (by omega))
      have hadd := nearest_add (y := 1.0) hsum.finite rfl (by
        rw [hrat, rat_one, abs_of_nonneg (by positivity)]
        exact_mod_cast natCast_le_largest (n := k + 1) (by omega))
      rw [hrat, rat_one] at hadd
      rw [List.replicate_succ', List.foldl_append]
      push_cast
      exact hadd

/-- A double from 0 on, infinity included. -/
def Nonneg (x : Float) : Prop :=
  (x.isFinite = true ∧ 0 ≤ rat x) ∨ x.toModel.unpack = .infinity .positive

theorem NearestUnpacked.nonneg {q : ℚ} {u : UnpackedFloat} (h : NearestUnpacked q u) (hq : 0 ≤ q) :
    Nonneg (.ofModel (.pack u)) := by
  by_cases hf : Fits u
  · have hu : (Float.ofModel (.pack u)).toModel.unpack = u := unpack_pack h.normal hf
    left
    constructor
    · show (Float.ofModel (.pack u)).toModel.unpack.isFinite = true
      rw [hu]
      exact h.finite
    · rw [rat, hu]
      exact h.rounds.nonneg hq
  · cases u with
    | infinity s => exact absurd trivial hf
    | notANumber => exact absurd trivial hf
    | zero s => exact absurd trivial hf
    | finite s m e hm =>
        right
        have hnum := h.rounds.nonneg hq
        cases s
        · exact absurd hnum (not_le_of_gt (number_negative_neg m e hm))
        · exact unpack_pack_overflow .positive hm (not_le.mp hf)

namespace Nonneg

variable {x y : Float}

theorem unpack_add_of_infinite (hx : x.toModel.unpack = .infinity .positive) (hy : Nonneg y) :
    (x + y).toModel.unpack = .infinity .positive := by
  have hadd : (x + y).toModel =
      .pack (UnpackedFloat.add .binary64 x.toModel.unpack y.toModel.unpack) := rfl
  rw [hadd, hx]
  rcases hy with ⟨hy, -⟩ | hy
  · have hyu : y.toModel.unpack.isFinite = true := hy
    cases hu : y.toModel.unpack with
    | infinity s => simp [hu, UnpackedFloat.isFinite] at hyu
    | notANumber => simp [hu, UnpackedFloat.isFinite] at hyu
    | zero s => exact unpack_pack_infinity .positive
    | finite s m e hm => exact unpack_pack_infinity .positive
  · rw [hy]
    exact unpack_pack_infinity .positive

theorem add (hx : Nonneg x) (hy : Nonneg y) : Nonneg (x + y) := by
  have hadd : (x + y).toModel =
      .pack (UnpackedFloat.add .binary64 x.toModel.unpack y.toModel.unpack) := rfl
  rcases hx with ⟨hx, hx₀⟩ | hx
  · rcases hy with ⟨hy, hy₀⟩ | hy
    · exact (add_unpacked_spec (normal_unpack x.toModel).1 (normal_unpack y.toModel).1 hx hy).nonneg
        (add_nonneg hx₀ hy₀)
    · right
      have hxu : x.toModel.unpack.isFinite = true := hx
      rw [hadd, hy]
      cases hu : x.toModel.unpack with
      | infinity s => simp [hu, UnpackedFloat.isFinite] at hxu
      | notANumber => simp [hu, UnpackedFloat.isFinite] at hxu
      | zero s => exact unpack_pack_infinity .positive
      | finite s m e hm => exact unpack_pack_infinity .positive
  · exact .inr (unpack_add_of_infinite hx hy)

/-- A finite sum has a finite first term. -/
theorem isFinite_of_add (hx : Nonneg x) (hy : Nonneg y) (h : (x + y).isFinite = true) :
    x.isFinite = true := by
  rcases hx with ⟨hx, -⟩ | hx
  · exact hx
  · have hsum : (x + y).toModel.unpack.isFinite = true := h
    rw [unpack_add_of_infinite hx hy] at hsum
    exact absurd hsum Bool.false_ne_true

end Nonneg

/-- What is finite after packing was not too large. -/
theorem NearestUnpacked.nearest_of_isFinite {q : ℚ} {u : UnpackedFloat} (hspec : NearestUnpacked q u)
    (h : (Float.ofModel (.pack u)).isFinite = true) : Nearest q (.ofModel (.pack u)) := by
  refine hspec.pack_of_fits ?_
  by_contra hfits
  have hpack : (Float.Model.pack u).unpack.isFinite = true := h
  cases u with
  | finite s m e hm =>
      rw [unpack_pack_overflow s hm (not_le.mp hfits)] at hpack
      exact absurd hpack Bool.false_ne_true
  | _ => exact hfits trivial

/-- A finite sum of doubles is the one nearest to the exact sum, also where that exceeds the largest
double by less than the rounding. -/
theorem nearest_add_of_isFinite {x y : Float} (hx : x.isFinite = true) (hy : y.isFinite = true)
    (h : (x + y).isFinite = true) : Nearest (rat x + rat y) (x + y) :=
  (add_unpacked_spec (normal_unpack x.toModel).1 (normal_unpack y.toModel).1 hx
    hy).nearest_of_isFinite h

structure Part (x y : Float) : Prop where
  finite : x.isFinite = true
  nonneg : 0 ≤ rat x
  le : rat x ≤ rat y

/-- Parts of two terms add up to a part of their sum, which is finite if the whole sum is. -/
theorem Part.add {x y x' y' : Float} (hx : Part x x') (hy : Part y y') (hx' : x'.isFinite = true)
    (hy' : y'.isFinite = true) (h : (x' + y').isFinite = true) : Part (x + y) (x' + y') := by
  have hspec := add_unpacked_spec (normal_unpack x.toModel).1 (normal_unpack y.toModel).1
    hx.finite hy.finite
  have hwhole := nearest_add_of_isFinite hx' hy' h
  have h₀ := hspec.rounds.nonneg (add_nonneg hx.nonneg hy.nonneg)
  have hle := hspec.rounds.mono hwhole.rounds (add_le_add hx.le hy.le)
  have hfits := hspec.normal.fits (by
    rw [abs_of_nonneg h₀]
    exact hle.trans ((le_abs_self _).trans (abs_rat_le_largest _)))
  have hsum := hspec.pack_of_fits hfits
  exact ⟨hsum.finite, hsum.rounds.nonneg (add_nonneg hx.nonneg hy.nonneg),
    hsum.rounds.mono hwhole.rounds (add_le_add hx.le hy.le)⟩

end RenderGate.Double
