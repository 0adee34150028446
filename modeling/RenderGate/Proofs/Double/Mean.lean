import RenderGate.Proofs.Double.Proportion

/-!
# Means of proportions

The mean of doubles between 0 and 1 lies between 0 and 1, however many there are.  Up to `2 ^ 53`
of them the rounded sum does not exceed their number, and from there on it does not grow any more,
while their number does.
-/

namespace RenderGate.Double

open Float.Model Float.Model.UnpackedFloat

/-- The number half way between `2 ^ 53` and the next double is rounded down. -/
theorem rounds_saturated : Rounds (2 ^ 53 + 1) (2 ^ 53) := by
  refine ⟨1, 2 ^ 52, ⟨by norm_num, by norm_num, .inl (by norm_num)⟩, ⟨?_, fun _ => ?_⟩, by norm_num⟩
  · rw [abs_le]
    constructor <;> norm_num
  · exact ⟨2 ^ 51, by norm_num⟩

theorem rat_add_le_saturated {x y : Float} (hx : x.isFinite = true) (hx₀ : 0 ≤ rat x)
    (hx₁ : rat x ≤ 2 ^ 53) (hy : Proportion y) :
    (x + y).isFinite = true ∧ 0 ≤ rat (x + y) ∧ rat (x + y) ≤ 2 ^ 53 := by
  have hnonneg : 0 ≤ rat x + rat y := add_nonneg hx₀ hy.rat_nonneg
  have hsum : rat x + rat y ≤ 2 ^ 53 + 1 := add_le_add hx₁ hy.rat_le_one
  have hlargest : (2 : ℚ) ^ 53 + 1 ≤ largest := by
    exact_mod_cast natCast_le_largest (n := 2 ^ 53 + 1) (by norm_num)
  have hadd := nearest_add hx hy.finite (by
    rw [abs_of_nonneg hnonneg]
    exact hsum.trans hlargest)
  exact ⟨hadd.finite, hadd.nonneg hnonneg, hadd.rounds.mono rounds_saturated hsum⟩

/-- A sum of proportions does not grow beyond `2 ^ 53`. -/
theorem foldl_add_saturated {xs : List Float} (hxs : ∀ x ∈ xs, Proportion x) {a : Float}
    (ha : a.isFinite = true) (h₀ : 0 ≤ rat a) (h₁ : rat a ≤ 2 ^ 53) :
    (xs.foldl (· + ·) a).isFinite = true ∧ 0 ≤ rat (xs.foldl (· + ·) a) ∧
      rat (xs.foldl (· + ·) a) ≤ 2 ^ 53 := by
  induction xs generalizing a with
  | nil => exact ⟨ha, h₀, h₁⟩
  | cons x xs ih =>
      obtain ⟨hf, hnonneg, hle⟩ := rat_add_le_saturated ha h₀ h₁ (hxs x List.mem_cons_self)
      exact ih (fun y hy => hxs y (List.mem_cons_of_mem x hy)) hf hnonneg hle

/-- A natural number of more than 53 bits is a double from `2 ^ 53` on, or infinite. -/
theorem ofNat_of_large {n : ℕ} (h : 2 ^ 53 ≤ n) :
    (Float.ofNat n).isFinite = true ∧ 2 ^ 53 ≤ rat (Float.ofNat n) ∨
      (Float.ofNat n).toModel.unpack = .infinity .positive := by
  obtain ⟨u, hspec, hu⟩ := nearestUnpacked_ofNat h
  rw [hu]
  refine (hspec.nonneg n.cast_nonneg).imp (fun ⟨hf, _⟩ => ⟨hf, ?_⟩) id
  have hself : Rounds (2 ^ 53) (2 ^ 53) :=
    Rounds.self (by exact_mod_cast representable_natCast (n := 2 ^ 53) le_rfl)
  exact hself.mono (hspec.nearest_of_isFinite hf).rounds (by exact_mod_cast h)

/-- A finite double divided by an infinite one is a zero. -/
theorem proportion_div_infinite {x y : Float} (hx : x.isFinite = true)
    (hy : y.toModel.unpack = .infinity .positive) : Proportion (x / y) := by
  have hzero : ∃ s, (x / y).toModel.unpack = .zero s := by
    have hdiv : (x / y).toModel.unpack =
        (Float.Model.pack (UnpackedFloat.div .binary64 x.toModel.unpack y.toModel.unpack)).unpack :=
      rfl
    have hx' : x.toModel.unpack.isFinite = true := hx
    rw [hdiv, hy]
    generalize x.toModel.unpack = u at hx'
    cases u with
    | infinity s => exact absurd hx' Bool.false_ne_true
    | notANumber => exact absurd hx' Bool.false_ne_true
    | zero s => exact ⟨_, unpack_pack (u := .zero _) trivial trivial⟩
    | finite s m e hm => exact ⟨_, unpack_pack (u := .zero _) trivial trivial⟩
  obtain ⟨s, hs⟩ := hzero
  have hrat : rat (x / y) = 0 := by rw [rat, hs, number_zero]
  refine ⟨?_, hrat.ge, hrat.le.trans zero_le_one⟩
  show (x / y).toModel.unpack.isFinite = true
  rw [hs]
  rfl

/-- The mean of proportions is a proportion. -/
theorem proportion_mean {xs : List Float} (hxs : ∀ x ∈ xs, Proportion x) (hne : xs ≠ []) :
    Proportion (xs.foldl (· + ·) 0.0 / Float.ofNat xs.length) := by
  rcases le_total xs.length (2 ^ 53) with hlen | hlen
  · obtain ⟨hf, h₀, hle⟩ := foldl_add_le hxs (k := 0) (a := 0.0) rfl rat_zero.ge
      (by rw [rat_zero, Nat.cast_zero]) (by omega)
    rw [Nat.zero_add, ← rat_ofNat hlen] at hle
    refine Part.proportion_div ⟨hf, h₀, hle⟩ ?_
    rw [rat_ofNat hlen]
    exact_mod_cast List.length_pos_iff.mpr hne
  · obtain ⟨hf, h₀, hle⟩ := foldl_add_saturated hxs (a := 0.0) rfl rat_zero.ge
      (by rw [rat_zero]; norm_num)
    rcases ofNat_of_large hlen with ⟨-, hcount⟩ | hinf
    · exact Part.proportion_div ⟨hf, h₀, hle.trans hcount⟩ (lt_of_lt_of_le (by norm_num) hcount)
    · exact proportion_div_infinite hf hinf

end RenderGate.Double
