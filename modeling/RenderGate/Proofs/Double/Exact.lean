import RenderGate.Proofs.Double.Arithmetic

/-!
# Exact results

Some operations on doubles are not rounded at all: the constants that a comparison uses are doubles,
a product with 1 is its other factor, a number divided by itself is 1, and a natural number up to
`2 ^ 53` is a double.  Counting twice gives the same double as doubling a count, and two doubles
that differ have a difference that is not rounded to 0.
-/

namespace RenderGate.Double

open Float.Model Float.Model.UnpackedFloat

theorem unpack_one :
    (1.0 : Float).toModel.unpack = .finite .positive (2 ^ 52) (-52) (Nat.two_pow_pos 52) := rfl

theorem rat_zero : rat 0.0 = 0 := rfl

theorem rat_one : rat 1.0 = 1 := by
  rw [rat, unpack_one, number_positive]
  norm_num

theorem rat_two : rat 2.0 = 2 := by
  have h : (2.0 : Float).toModel.unpack = .finite .positive (2 ^ 52) (-51) (by norm_num) := rfl
  rw [rat, h, number_positive]
  norm_num

theorem nearest_zero : Nearest 0 0.0 := nearest_self (x := 0.0) rfl

theorem nearest_one : Nearest 1 1.0 := by
  rw [← rat_one]
  exact nearest_self rfl

theorem one_le_largest : 1 ≤ largest := by
  have h := abs_rat_le_largest 1.0
  rwa [rat_one, abs_one] at h

theorem one_mul_of_unpack {x : Float}
    (h : UnpackedFloat.mul .binary64 (.finite .positive (2 ^ 52) (-52) (Nat.two_pow_pos 52))
      x.toModel.unpack = x.toModel.unpack) : 1.0 * x = x := by
  show Float.ofModel (.pack (UnpackedFloat.mul .binary64 (1.0 : Float).toModel.unpack
    x.toModel.unpack)) = x
  rw [unpack_one, h, pack_unpack]

/-- A factor of 1 changes nothing, not even what is not a number. -/
theorem one_mul_eq (x : Float) : 1.0 * x = x := by
  cases hu : x.toModel.unpack with
  | notANumber => exact one_mul_of_unpack (by rw [hu]; rfl)
  | infinity s => exact one_mul_of_unpack (by rw [hu]; cases s <;> rfl)
  | zero s => exact one_mul_of_unpack (by rw [hu]; cases s <;> rfl)
  | finite s m e hm =>
      have hf : x.isFinite = true := by
        show x.toModel.unpack.isFinite = true
        rw [hu]
        rfl
      have h₀ : rat x ≠ 0 := by
        rw [rat, hu, ← abs_pos, abs_number_finite]
        positivity
      have h := nearest_mul (x := 1.0) rfl hf (by
        rw [rat_one, one_mul]
        exact abs_rat_le_largest x)
      rw [rat_one, one_mul] at h
      exact ((nearest_self hf).eq h h₀).symm

theorem div_self_eq {x : Float} (hx : x.isFinite = true) (h₀ : rat x ≠ 0) : x / x = 1.0 := by
  have h := nearest_div hx h₀ (by rw [div_self h₀, abs_one]; exact one_le_largest)
  rw [div_self h₀] at h
  exact (nearest_one.eq h (by rw [rat_one]; norm_num)).symm

/-- Nothing, divided by something positive, is the positive zero. -/
theorem zero_div_eq {x : Float} (h₀ : 0 < rat x) : 0.0 / x = 0.0 := by
  show Float.ofModel (.pack (UnpackedFloat.div .binary64 (.zero .positive) x.toModel.unpack)) = 0.0
  rw [rat] at h₀
  generalize x.toModel.unpack = u at h₀
  cases u with
  | finite s m e hm =>
      cases s with
      | positive => rfl
      | negative => exact absurd h₀ (number_negative_neg m e hm).not_gt
  | _ => exact absurd h₀ (lt_irrefl 0)

theorem unpack_abs (x : Float) : x.abs.toModel.unpack = x.toModel.unpack.abs := by
  obtain ⟨hn, hf⟩ := normal_unpack x.toModel
  show (Float.Model.pack x.toModel.unpack.abs).unpack = _
  apply unpack_pack
  · cases hu : x.toModel.unpack with
    | finite s m e hm => rwa [hu] at hn
    | _ => trivial
  · cases hu : x.toModel.unpack with
    | finite s m e hm => rwa [hu] at hf
    | _ => trivial

theorem number_abs (u : UnpackedFloat) : number u.abs = |number u| := by
  cases u with
  | finite s m e hm =>
      rw [abs_number_finite]
      exact number_positive m e hm
  | _ => exact abs_zero.symm

theorem rat_abs (x : Float) : rat x.abs = |rat x| := by
  rw [rat, unpack_abs, number_abs, rat]

theorem isFinite_abs {x : Float} (h : x.isFinite = true) : x.abs.isFinite = true := by
  have hx : x.toModel.unpack.isFinite = true := h
  show x.abs.toModel.unpack.isFinite = true
  rw [unpack_abs]
  cases hu : x.toModel.unpack with
  | infinity s =>
      rw [hu] at hx
      exact hx
  | notANumber =>
      rw [hu] at hx
      exact hx
  | _ => rfl

theorem unpack_neg (x : Float) : (-x).toModel.unpack = x.toModel.unpack.neg := by
  obtain ⟨hn, hf⟩ := normal_unpack x.toModel
  show (Float.Model.pack x.toModel.unpack.neg).unpack = _
  apply unpack_pack
  · cases hu : x.toModel.unpack with
    | finite s m e hm => rwa [hu] at hn
    | _ => trivial
  · cases hu : x.toModel.unpack with
    | finite s m e hm => rwa [hu] at hf
    | _ => trivial

theorem isFinite_neg {x : Float} (h : x.isFinite = true) : (-x).isFinite = true := by
  have hx : x.toModel.unpack.isFinite = true := h
  show (-x).toModel.unpack.isFinite = true
  rw [unpack_neg]
  cases hu : x.toModel.unpack <;> rw [hu] at hx <;> exact hx

theorem representable_natCast {n : ℕ} (h : n ≤ 2 ^ 53) : Representable n := by
  rcases h.eq_or_lt with rfl | h
  · exact ⟨1, 53, by norm_num, by norm_num, by norm_num⟩
  · refine ⟨n, 0, ?_, by norm_num, by simp⟩
    rw [Nat.abs_cast]
    exact_mod_cast h

theorem natCast_le_largest {n : ℕ} (h : n ≤ 2 ^ 128) : (n : ℚ) ≤ largest := by
  have h' : (n : ℚ) ≤ 2 ^ 128 := by exact_mod_cast h
  calc (n : ℚ) ≤ 2 ^ (128 : ℤ) := by exact_mod_cast h'
    _ ≤ 2 ^ (971 : ℤ) := zpow_le_zpow_right₀ (by norm_num) (by norm_num)
    _ ≤ largest := le_mul_of_one_le_left (two_zpow_pos 971).le (by norm_num)

theorem nearest_toFloat {n : ℕ} (h : n < 2 ^ 53) : Nearest n n.toUInt64.toFloat := by
  have hspec := normalize_spec (n : ℤ) 0 .positive
  rw [zpow_zero, mul_one, Int.cast_natCast] at hspec
  have hn : n.toUInt64.toNat = n := Nat.mod_eq_of_lt (by omega)
  have hfloat : n.toUInt64.toFloat = .ofModel (.pack (normalize .binary64 n 0 .positive)) := by
    show Float.ofModel (.pack (normalize .binary64 (n.toUInt64.toNat : ℕ) 0 .positive)) = _
    rw [hn]
  rw [hfloat]
  exact hspec.pack (by rw [Nat.abs_cast]; exact natCast_le_largest (by omega))

theorem ofNat_of_lt {n : ℕ} (h : n < 2 ^ 53) : Float.ofNat n = n.toUInt64.toFloat * 1.0 := by
  show Float.ofScientific n false 0 = _
  rw [Float.ofScientific, dif_pos ⟨h, by norm_num⟩]
  rfl

theorem ofNat_of_le {n : ℕ} (h : 2 ^ 53 ≤ n) : Float.ofNat n =
    .ofModel (.pack (UnpackedFloat.mul .binary64
      (.finite .positive (n <<< 53) (-53) (Nat.shiftLeft_pos_iff.mpr (by omega)))
      (.finite .positive 1 0 one_pos))) := by
  have hscientific : UnpackedFloat.ofScientific .binary64 n 0 = UnpackedFloat.mul .binary64
      (.finite .positive (n <<< 53) (-53) (Nat.shiftLeft_pos_iff.mpr (by omega)))
      (.finite .positive 1 0 one_pos) := by
    have hpow : (0 : ℤ) ≤ 2 ^ Format.binary64.exponentBits := by positivity
    rw [UnpackedFloat.ofScientific, dif_neg (by omega), if_neg (by omega), if_neg (by omega),
      if_pos le_rfl]
    rfl
  rw [← hscientific]
  show Float.ofScientific n false 0 = _
  rw [Float.ofScientific, dif_neg (by omega)]
  rfl

/-- A large natural number is rounded once, before it may turn out too large for a double. -/
theorem nearestUnpacked_ofNat {n : ℕ} (h : 2 ^ 53 ≤ n) :
    ∃ u, NearestUnpacked n u ∧ Float.ofNat n = .ofModel (.pack u) := by
  have hspec := mul_finite_spec .positive .positive (m := n <<< 53) (e := -53) (n := 1) (f := 0)
    (Nat.shiftLeft_pos_iff.mpr (by omega)) one_pos (.inl (by
      rw [Nat.shiftLeft_eq]
      omega))
  have hval : signed (.positive * .positive) (((n <<< 53 : ℕ) : ℚ) * 2 ^ (-53 : ℤ) *
      ((1 : ℕ) * 2 ^ (0 : ℤ))) = n := by
    show ((n <<< 53 : ℕ) : ℚ) * 2 ^ (-53 : ℤ) * ((1 : ℕ) * 2 ^ (0 : ℤ)) = n
    rw [Nat.shiftLeft_eq]
    push_cast
    rw [zpow_neg]
    norm_num
    ring
  rw [hval] at hspec
  exact ⟨_, hspec, ofNat_of_le h⟩

/-- The double for a natural number is the nearest one, whatever the size of the number. -/
theorem nearest_ofNat {n : ℕ} (h : n ≤ largest) : Nearest n (Float.ofNat n) := by
  rcases lt_or_ge n (2 ^ 53) with hn | hn
  · have hx := nearest_toFloat hn
    have hrat := hx.rat_eq (representable_natCast hn.le)
    have hmul := nearest_mul (y := 1.0) hx.finite rfl (by
      rw [hrat, rat_one, mul_one, Nat.abs_cast]
      exact natCast_le_largest (by omega))
    rw [hrat, rat_one, mul_one] at hmul
    rw [ofNat_of_lt hn]
    exact hmul
  · obtain ⟨u, hspec, hu⟩ := nearestUnpacked_ofNat hn
    rw [hu]
    exact hspec.pack (by rwa [Nat.abs_cast])

/-- Up to `2 ^ 53` every natural number is a double. -/
theorem rat_ofNat {n : ℕ} (h : n ≤ 2 ^ 53) : rat (Float.ofNat n) = n :=
  (nearest_ofNat (natCast_le_largest (by omega))).rat_eq (representable_natCast h)

theorem isFinite_ofInt {n : Int} (h : n.natAbs ≤ 2 ^ 128) : (Float.ofInt n).isFinite = true := by
  cases n with
  | ofNat n => exact (nearest_ofNat (natCast_le_largest h)).finite
  | negSucc n => exact isFinite_neg (nearest_ofNat (natCast_le_largest h)).finite

theorem Representable.two_mul {v : ℚ} (h : Representable v) : Representable (2 * v) := by
  obtain ⟨n, e, hn, he, rfl⟩ := h
  refine ⟨n, e + 1, hn, by omega, ?_⟩
  rw [zpow_add₀ two_ne_zero, zpow_one]
  ring

theorem representable_rat (x : Float) : Representable (rat x) :=
  representable_number (normal_unpack x.toModel).1

theorem Nearest.one_le {q : ℚ} {x : Float} (h : Nearest q x) (hq : 1 ≤ q) : 1 ≤ rat x := by
  have := nearest_one.rounds.mono h.rounds hq
  rwa [rat_one] at this

/-- Doubling a count and counting twice are rounded alike. -/
theorem two_mul_ofNat {n : ℕ} (h : ((n + n : ℕ) : ℚ) ≤ largest) :
    2.0 * Float.ofNat n = Float.ofNat (n + n) := by
  rcases Nat.eq_zero_or_pos n with rfl | h₀
  · decide
  have hone : (1 : ℚ) ≤ n := by exact_mod_cast h₀
  have hsum : ((n + n : ℕ) : ℚ) = 2 * n := by
    push_cast
    ring
  have hx : Nearest n (Float.ofNat n) := nearest_ofNat (by linarith)
  have htwice := nearest_ofNat h
  rw [hsum] at htwice h
  have hdouble : Rounds (2 * n) (2 * rat (Float.ofNat n)) :=
    hx.rounds.two_mul (by rwa [Nat.abs_cast])
  have hle : |2 * rat (Float.ofNat n)| ≤ largest := by
    refine hdouble.abs_le_largest ?_
    rwa [abs_of_nonneg (by linarith)]
  have hmul := nearest_mul (x := 2.0) rfl hx.finite (by rwa [rat_two])
  rw [rat_two] at hmul
  have hrat : rat (2.0 * Float.ofNat n) = 2 * rat (Float.ofNat n) :=
    hmul.rat_eq (representable_rat _).two_mul
  have hpos := hx.one_le hone
  refine eq_of_rat_eq ?_ (by linarith)
  rw [hrat]
  exact hdouble.unique htwice.rounds

/-- All doubles are multiples of the least one. -/
theorem Representable.exists_mul_least {v : ℚ} (h : Representable v) :
    ∃ n : ℤ, v = n * 2 ^ (-1074 : ℤ) := by
  obtain ⟨n, e, -, he, rfl⟩ := h
  have hk : ((e + 1074).toNat : ℤ) = e + 1074 := Int.toNat_of_nonneg (by omega)
  refine ⟨n * 2 ^ (e + 1074).toNat, ?_⟩
  rw [Int.cast_mul, Int.cast_pow, Int.cast_ofNat, mul_assoc, ← zpow_natCast, hk,
    ← zpow_add₀ two_ne_zero]
  rw [show e + 1074 + -1074 = e by ring]

/-- The difference of two doubles is rounded to zero only if they are equal. -/
theorem rat_sub_pos {x y : Float} (hx : x.isFinite = true) (hy : y.isFinite = true)
    (h : |rat x - rat y| ≤ largest) (hlt : rat y < rat x) : 0 < rat (x - y) := by
  obtain ⟨n, hn⟩ := (representable_rat x).exists_mul_least
  obtain ⟨k, hk⟩ := (representable_rat y).exists_mul_least
  have hleast : Representable (2 ^ (-1074 : ℤ)) :=
    ⟨1, -1074, by norm_num, le_rfl, by rw [Int.cast_one, one_mul]⟩
  have hkn : k < n := by
    rw [hn, hk] at hlt
    exact_mod_cast lt_of_mul_lt_mul_right hlt (two_zpow_pos _).le
  have hge : (2 : ℚ) ^ (-1074 : ℤ) ≤ rat x - rat y := by
    have hstep : (1 : ℤ) ≤ n - k := by omega
    have hone : (1 : ℚ) ≤ n - k := by exact_mod_cast hstep
    rw [hn, hk, ← sub_mul]
    exact le_mul_of_one_le_left (two_zpow_pos _).le hone
  exact (two_zpow_pos _).trans_le ((Rounds.self hleast).mono (nearest_sub hx hy h).rounds hge)

end RenderGate.Double
