import RenderGate.Proofs.Double.Value

/-!
# Rounding a mantissa

A result that is not a double yet is a mantissa, an exponent and two further bits, which tell how
the exact result lies to the mantissa (`Represents`).  Whenever enough bits are known, rounding it
gives the double nearest to the exact result (`roundWithAccuracy_spec`), and so do the integers and
the quotients of integers that are rounded (`normalize_spec`, `divCore_spec`).
-/

namespace RenderGate.Double

open Float.Model Float.Model.UnpackedFloat

/-- The mantissa is the whole part of `q`, and the two further bits tell how `q` lies to the half
above it. -/
def Represents (em : ExtendedMantissa) (q : ℚ) : Prop :=
  match em.roundBit, em.stickyBit with
  | false, false => q = em.mantissa
  | false, true => em.mantissa < q ∧ q < em.mantissa + 1 / 2
  | true, false => q = em.mantissa + 1 / 2
  | true, true => em.mantissa + 1 / 2 < q ∧ q < em.mantissa + 1

namespace Represents

theorem exact (m : ℕ) : Represents (.ofMantissaAndAccuracy m .exact) m := rfl

theorem fraction (n : ℕ) {d : ℕ} (hd : 0 < d) :
    Represents (.ofMantissaAndAccuracy (n / d) (accuracyOfFraction (n % d) d)) ((n : ℚ) / d) := by
  have hd' : (0 : ℚ) < d := by exact_mod_cast hd
  have hsplit : (n : ℚ) / d = (n / d : ℕ) + ((n % d : ℕ) : ℚ) / d := by
    rw [div_eq_iff hd'.ne', add_mul, div_mul_cancel₀ _ hd'.ne']
    exact_mod_cast (Nat.div_add_mod' n d).symm
  have hlt : ((n % d : ℕ) : ℚ) / d < 1 := by
    rw [div_lt_one hd']
    exact_mod_cast Nat.mod_lt n hd
  rw [hsplit]
  generalize n / d = m
  generalize n % d = r at hlt ⊢
  unfold accuracyOfFraction
  split
  · rename_i h
    simp [h, Represents, ExtendedMantissa.ofMantissaAndAccuracy]
  · rename_i h
    have hr : (0 : ℚ) < (r : ℚ) / d := div_pos (by exact_mod_cast Nat.pos_of_ne_zero h) hd'
    rcases lt_trichotomy (2 * r) d with hc | hc | hc
    · have hh : (r : ℚ) / d < 1 / 2 := by
        rw [div_lt_div_iff₀ hd' two_pos]
        exact_mod_cast (by omega : r * 2 < 1 * d)
      rw [compare_lt_iff_lt.mpr hc]
      show (m : ℚ) < m + r / d ∧ (m : ℚ) + r / d < m + 1 / 2
      constructor <;> linarith
    · have hh : (r : ℚ) / d = 1 / 2 := by
        rw [div_eq_div_iff hd'.ne' two_ne_zero]
        exact_mod_cast (by omega : r * 2 = 1 * d)
      rw [compare_eq_iff_eq.mpr hc, hh]
      exact rfl
    · have hh : 1 / 2 < (r : ℚ) / d := by
        rw [div_lt_div_iff₀ two_pos hd']
        exact_mod_cast (by omega : 1 * d < r * 2)
      rw [compare_gt_iff_gt.mpr hc]
      show (m : ℚ) + 1 / 2 < m + r / d ∧ (m : ℚ) + r / d < m + 1
      constructor <;> linarith

theorem bounds {em : ExtendedMantissa} {q : ℚ} (h : Represents em q) :
    (em.mantissa : ℚ) ≤ q ∧ q < em.mantissa + 1 := by
  obtain ⟨m, r, s⟩ := em
  cases r <;> cases s <;> simp only [Represents] at h ⊢
  · constructor <;> linarith
  · constructor <;> linarith
  · constructor <;> linarith
  · constructor <;> linarith

theorem shiftRightOne {em : ExtendedMantissa} {q : ℚ} (h : Represents em q) :
    Represents em.shiftRightOne (q / 2) := by
  obtain ⟨m, r, s⟩ := em
  have hm : ((m / 2 : ℕ) : ℚ) * 2 + (m % 2 : ℕ) = m := by exact_mod_cast Nat.div_add_mod' m 2
  rcases Nat.mod_two_eq_zero_or_one m with h₀ | h₀
  · rw [h₀, Nat.cast_zero] at hm
    cases r <;> cases s <;>
      simp only [Represents, ExtendedMantissa.shiftRightOne, h₀, bne_self_eq_false, Bool.or_self,
        Bool.or_true, Bool.or_false] at h ⊢
    · linarith
    · constructor <;> linarith
    · constructor <;> linarith
    · constructor <;> linarith
  · rw [h₀, Nat.cast_one] at hm
    have hne : (1 != 0) = true := rfl
    cases r <;> cases s <;>
      simp only [Represents, ExtendedMantissa.shiftRightOne, h₀, hne, Bool.or_self,
        Bool.or_true, Bool.or_false] at h ⊢
    · linarith
    · constructor <;> linarith
    · constructor <;> linarith
    · constructor <;> linarith

theorem shiftRight {em : ExtendedMantissa} {q : ℚ} (h : Represents em q) (k : ℕ) :
    Represents (em >>> k) (q / 2 ^ k) := by
  induction k with
  | zero =>
      rw [pow_zero, div_one]
      exact h
  | succ k ih =>
      have := ih.shiftRightOne
      rwa [div_div, ← pow_succ] at this

theorem nearestEven {em : ExtendedMantissa} {q : ℚ} (h : Represents em q) :
    NearestEven q em.roundedMantissa := by
  obtain ⟨m, r, s⟩ := em
  cases r <;> cases s <;>
    simp only [Represents, ExtendedMantissa.roundedMantissa, ExtendedMantissa.accuracy,
      Accuracy.roundToNearestEven] at h ⊢
  · rw [h]
    exact NearestEven.self m
  · have habs : |q - ((m : ℕ) : ℤ)| < 1 / 2 := by
      rw [Int.cast_natCast, abs_lt]
      constructor <;> linarith
    exact ⟨habs.le, fun e => absurd e habs.ne⟩
  · rcases Nat.mod_two_eq_zero_or_one m with h₀ | h₀
    · refine ⟨?_, fun _ => ?_⟩
      · rw [h₀, h, abs_le]
        push_cast
        constructor <;> linarith
      · rw [h₀, Int.even_coe_nat, Nat.even_iff]
        omega
    · refine ⟨?_, fun _ => ?_⟩
      · rw [h₀, h, abs_le]
        push_cast
        constructor <;> linarith
      · rw [h₀, Int.even_coe_nat, Nat.even_iff]
        omega
  · have habs : |q - ((m + 1 : ℕ) : ℤ)| < 1 / 2 := by
      rw [Int.cast_natCast, abs_lt]
      push_cast
      constructor <;> linarith
    exact ⟨habs.le, fun e => absurd e habs.ne⟩

end Represents

theorem targetExponent_binary64 (m : ℕ) (e : ℤ) :
    Format.binary64.targetExponent (totalExponent m e) = max (m.log2 + e - 52) (-1074) := by
  simp only [Format.targetExponent, totalExponent, Format.mantissaBits]
  congr 1
  push_cast
  ring

/-- A rounded mantissa that has grown to 54 bits is halved, and all others stay as they are. -/
theorem shiftToTargetExponent_rounded {n : ℕ} {t : ℤ} (hn : n ≤ 2 ^ 53) (ht : -1074 ≤ t) :
    shiftToTargetExponent .binary64 n t .exact =
      if n = 2 ^ 53 then (⟨2 ^ 52, false, false⟩, t + 1) else (⟨n, false, false⟩, t) := by
  simp only [shiftToTargetExponent, targetExponent_binary64, shiftToExponent]
  split
  · rename_i h
    subst h
    have hk : (max (((2 ^ 53 : ℕ).log2 : ℤ) + t - 52) (-1074) - t).toNat = 1 := by
      rw [Nat.log2_two_pow]
      omega
    rw [hk]
    rfl
  · have hl : n.log2 ≤ 52 := by
      rcases Nat.eq_zero_or_pos n with rfl | h₀
      · simp
      · have := (Nat.log2_lt h₀.ne').mpr (show n < 2 ^ 53 by omega)
        omega
    have hk : (max ((n.log2 : ℤ) + t - 52) (-1074) - t).toNat = 0 := by omega
    rw [hk]
    simp
    rfl

def signed : Sign → ℚ → ℚ
  | .positive, v => v
  | .negative, v => -v

theorem number_finite (s : Sign) (m : ℕ) (e : ℤ) (h : 0 < m) :
    number (.finite s m e h) = signed s (m * 2 ^ e) := by
  cases s
  · exact number_negative m e h
  · exact number_positive m e h

theorem Rounds.signed {q v : ℚ} (h : Rounds q v) (s : Sign) : Rounds (signed s q) (signed s v) := by
  cases s
  · exact h.neg
  · exact h

/-- A mantissa `n` with at most 53 bits at the exponent `t`, as a double unpacks to it. -/
def collect (s : Sign) (n : ℕ) (t : ℤ) : UnpackedFloat :=
  if h : n = 0 then .zero s
  else if n = 2 ^ 53 then .finite s (2 ^ 52) (t + 1) (by norm_num)
  else .finite s n t (Nat.pos_of_ne_zero h)

theorem roundWithAccuracy_eq_collect {s : Sign} {m : ℕ} {e t : ℤ} {acc : Accuracy}
    {em : ExtendedMantissa} (h : shiftToTargetExponent .binary64 m e acc = (em, t))
    (hn : em.roundedMantissa ≤ 2 ^ 53) (ht : -1074 ≤ t) :
    roundWithAccuracy .binary64 s m e acc = collect s em.roundedMantissa t := by
  by_cases h₁ : em.roundedMantissa = 2 ^ 53
  · have hs := shiftToTargetExponent_rounded hn ht
    rw [if_pos h₁] at hs
    simp only [roundWithAccuracy, h, hs, collect]
    rw [dif_neg (by norm_num), dif_neg (by omega), if_pos h₁]
  · have hs := shiftToTargetExponent_rounded hn ht
    rw [if_neg h₁] at hs
    simp only [roundWithAccuracy, h, hs, collect, if_neg h₁]

/-- `u` is the double nearest to `q`, unpacked, where its exponent may be too large to pack. -/
structure NearestUnpacked (q : ℚ) (u : UnpackedFloat) : Prop where
  normal : Normal u
  finite : u.isFinite = true
  rounds : Rounds q (number u)

theorem collect_spec (s : Sign) {n : ℕ} {t : ℤ} (hn : n ≤ 2 ^ 53) (ht : -1074 ≤ t)
    (hf : 2 ^ 52 ≤ n ∨ t = -1074) :
    Normal (collect s n t) ∧ (collect s n t).isFinite = true ∧
      number (collect s n t) = signed s (n * 2 ^ t) := by
  unfold collect
  split
  · rename_i h
    refine ⟨trivial, rfl, ?_⟩
    rw [number_zero, h, Nat.cast_zero, zero_mul]
    cases s
    · exact neg_zero.symm
    · rfl
  · split
    · rename_i h
      refine ⟨⟨by norm_num, by norm_num, by omega, .inl le_rfl⟩, rfl, ?_⟩
      rw [number_finite, h, zpow_add₀ two_ne_zero, zpow_one]
      congr 1
      push_cast
      ring
    · rename_i h₀ h₁
      exact ⟨⟨Nat.pos_of_ne_zero h₀, by omega, ht, hf⟩, rfl, number_finite ..⟩

theorem nonneg_of_whole {m : ℕ} {e : ℤ} {q : ℚ} (h : (m : ℚ) ≤ q / 2 ^ e) : 0 ≤ q := by
  have : 0 ≤ q / 2 ^ e := le_trans (by positivity) h
  rw [← div_mul_cancel₀ q (two_zpow_pos e).ne']
  exact mul_nonneg this (two_zpow_pos e).le

/-- The quantum of a number whose whole part at the exponent `e` is `m`. -/
theorem quantum_target {m : ℕ} {e : ℤ} {q : ℚ} (hl : (m : ℚ) ≤ q / 2 ^ e) (hu : q / 2 ^ e < m + 1)
    (he : e ≤ max (m.log2 + e - 52) (-1074)) : Quantum q (max (m.log2 + e - 52) (-1074)) := by
  have hq : 0 ≤ q := nonneg_of_whole hl
  rw [le_div_iff₀ (two_zpow_pos e)] at hl
  rw [div_lt_iff₀ (two_zpow_pos e)] at hu
  refine ⟨le_max_right _ _, ?_, ?_⟩
  · have hm : (m : ℚ) + 1 ≤ 2 ^ ((m.log2 : ℤ) + 1) := by
      have := Nat.lt_log2_self (n := m)
      exact_mod_cast this
    rw [abs_of_nonneg hq]
    calc q < (m + 1) * 2 ^ e := hu
      _ ≤ 2 ^ ((m.log2 : ℤ) + 1) * 2 ^ e := mul_le_mul_of_nonneg_right hm (two_zpow_pos e).le
      _ = 2 ^ ((m.log2 : ℤ) + 1 + e) := (zpow_add₀ two_ne_zero _ _).symm
      _ ≤ _ := zpow_le_zpow_right₀ (by norm_num) (by omega)
  · rcases le_total ((m.log2 : ℤ) + e - 52) (-1074) with h | h
    · exact .inr (max_eq_right h)
    · left
      have hm₀ : m ≠ 0 := by
        rintro rfl
        simp at h he
        omega
      have hm : (2 : ℚ) ^ (m.log2 : ℤ) ≤ m := by
        rw [zpow_natCast]
        exact_mod_cast Nat.log2_self_le hm₀
      rw [abs_of_nonneg hq, max_eq_left h]
      calc (2 : ℚ) ^ ((m.log2 : ℤ) + e - 52 + 52) = 2 ^ (m.log2 : ℤ) * 2 ^ e := by
            rw [← zpow_add₀ two_ne_zero, Int.sub_add_cancel]
        _ ≤ m * 2 ^ e := mul_le_mul_of_nonneg_right hm (two_zpow_pos e).le
        _ ≤ q := hl

/-- Rounding a mantissa of which enough bits are known. -/
theorem roundWithAccuracy_spec (s : Sign) {m : ℕ} {e : ℤ} {acc : Accuracy} {q : ℚ}
    (hq : Represents (.ofMantissaAndAccuracy m acc) (q / 2 ^ e))
    (he : e ≤ max (m.log2 + e - 52) (-1074)) :
    NearestUnpacked (signed s q) (roundWithAccuracy .binary64 s m e acc) := by
  have hmant : (ExtendedMantissa.ofMantissaAndAccuracy m acc).mantissa = m := by
    rcases acc with _ | _ | _ | _ <;> rfl
  obtain ⟨hl, hu⟩ := hq.bounds
  rw [hmant] at hl hu
  have hquantum := quantum_target hl hu he
  generalize htdef : max ((m.log2 : ℤ) + e - 52) (-1074) = t at he hquantum
  have hk : e + ((t - e).toNat : ℤ) = t := by omega
  have hshift : shiftToTargetExponent .binary64 m e acc =
      (ExtendedMantissa.ofMantissaAndAccuracy m acc >>> (t - e).toNat, t) := by
    simp only [shiftToTargetExponent, targetExponent_binary64, htdef, shiftToExponent, hk]
  have hem := (hq.shiftRight (t - e).toNat).nearestEven
  rw [div_div, ← zpow_natCast, ← zpow_add₀ two_ne_zero, hk] at hem
  generalize ExtendedMantissa.ofMantissaAndAccuracy m acc >>> (t - e).toNat = em at hshift hem
  have hle : em.roundedMantissa ≤ 2 ^ 53 := by exact_mod_cast hquantum.nearest_le hem
  have hfull : 2 ^ 52 ≤ em.roundedMantissa ∨ t = -1074 := by
    exact_mod_cast hquantum.le_nearest hem (nonneg_of_whole hl)
  have ht : -1074 ≤ t := hquantum.least
  obtain ⟨h₁, h₂, h₃⟩ := collect_spec s hle ht hfull
  rw [roundWithAccuracy_eq_collect hshift hle ht]
  refine ⟨h₁, h₂, ?_⟩
  rw [h₃]
  have hr : Rounds q (em.roundedMantissa * 2 ^ t) :=
    ⟨t, em.roundedMantissa, hquantum, hem, by rw [Int.cast_natCast]⟩
  exact hr.signed s

theorem log2_shiftLeft {m : ℕ} (hm : 0 < m) (k : ℕ) : (m <<< k).log2 = m.log2 + k := by
  obtain ⟨hl, hu⟩ := (Nat.log2_eq_iff hm.ne').mp rfl
  rw [Nat.log2_eq_iff (Nat.shiftLeft_pos_iff.mpr hm).ne', Nat.shiftLeft_eq]
  constructor
  · rw [pow_add]
    exact Nat.mul_le_mul_right _ hl
  · rw [show m.log2 + k + 1 = m.log2 + 1 + k by ring, pow_add _ (m.log2 + 1)]
    exact Nat.mul_lt_mul_of_pos_right hu (by positivity)

theorem round_spec (s : Sign) {m : ℕ} (e : ℤ) (hm : 0 < m) :
    NearestUnpacked (signed s (m * 2 ^ e)) (round .binary64 s m e) := by
  simp only [UnpackedFloat.round, decreaseExponent, targetExponent_binary64]
  generalize htdef : max ((m.log2 : ℤ) + e - 52) (-1074) = t
  have hk : ((e - t).toNat : ℤ) = max (e - t) 0 := Int.toNat_eq_max _
  refine roundWithAccuracy_spec s ?_ ?_
  · have hexact := Represents.exact (m <<< (e - t).toNat)
    convert hexact using 1
    rw [Nat.shiftLeft_eq, div_eq_iff (two_zpow_pos _).ne', zpow_sub₀ two_ne_zero, zpow_natCast]
    push_cast
    field_simp
  · rw [log2_shiftLeft hm]
    push_cast
    omega

theorem normalize_spec (n : ℤ) (e : ℤ) (s : Sign) :
    NearestUnpacked (n * 2 ^ e) (normalize .binary64 n e s) := by
  unfold UnpackedFloat.normalize
  split
  · rename_i h
    have hn : n < 0 := Int.compare_eq_lt.mp h
    have := round_spec .negative (m := (-n).toNat) e (by omega)
    convert this using 1
    have hcast : (((-n).toNat : ℤ) : ℚ) = -n := by exact_mod_cast Int.toNat_of_nonneg (by omega)
    rw [signed, ← Int.cast_natCast (R := ℚ), hcast]
    ring
  · rename_i h
    have hn : n = 0 := Int.compare_eq_eq.mp h
    rw [hn, Int.cast_zero, zero_mul]
    exact ⟨trivial, rfl, Rounds.self ⟨0, 0, by norm_num, by norm_num, by norm_num [number]⟩⟩
  · rename_i h
    have hn : 0 < n := Int.compare_eq_gt.mp h
    have := round_spec .positive (m := n.toNat) e (by omega)
    convert this using 1
    have hcast : ((n.toNat : ℤ) : ℚ) = n := by exact_mod_cast Int.toNat_of_nonneg hn.le
    rw [signed, ← Int.cast_natCast (R := ℚ), hcast]

theorem mul_finite_spec (s t : Sign) {m n : ℕ} {e f : ℤ} (hm : 0 < m) (hn : 0 < n)
    (h : 2 ^ 52 ≤ m * n ∨ e + f ≤ -1074) :
    NearestUnpacked (signed (s * t) (m * 2 ^ e * (n * 2 ^ f)))
      (UnpackedFloat.mul .binary64 (.finite s m e hm) (.finite t n f hn)) := by
  refine roundWithAccuracy_spec (s * t) ?_ ?_
  · have hexact := Represents.exact (m * n)
    convert hexact using 1
    rw [zpow_add₀ two_ne_zero, div_eq_iff (mul_pos (two_zpow_pos e) (two_zpow_pos f)).ne']
    push_cast
    ring
  · rcases h with h | h
    · have := (Nat.le_log2 (Nat.mul_pos hm hn).ne').mpr h
      omega
    · omega

/-- The quotient is computed with all the bits of a mantissa, or down to the least exponent. -/
theorem divCore_full {m n : ℕ} {e f : ℤ} (hm : 0 < m) (hn : 0 < n) :
    (divCore .binary64 m e n f).2.1 ≤
      max ((divCore .binary64 m e n f).1.log2 + (divCore .binary64 m e n f).2.1 - 52) (-1074) := by
  simp only [divCore]
  generalize ht : min (e - f) (Format.binary64.targetExponent
    (totalExponent m e - totalExponent n f)) = t
  have htarget : Format.binary64.targetExponent (totalExponent m e - totalExponent n f) =
      max (m.log2 + e - (n.log2 + f) - 53) (-1074) := by
    simp only [Format.targetExponent, totalExponent, Format.mantissaBits]
    congr 1
    push_cast
    ring
  rw [htarget] at ht
  by_cases hsmall : t ≤ -1074
  · exact hsmall.trans (le_max_right _ _)
  · have hk : 53 + n.log2 ≤ m.log2 + (e - f - t).toNat := by omega
    have hquot : 2 ^ 52 ≤ m <<< (e - f - t).toNat / n := by
      rw [Nat.le_div_iff_mul_le hn, Nat.shiftLeft_eq]
      calc 2 ^ 52 * n ≤ 2 ^ 52 * 2 ^ (n.log2 + 1) := Nat.mul_le_mul_left _ Nat.lt_log2_self.le
        _ = 2 ^ (53 + n.log2) := by ring
        _ ≤ 2 ^ (m.log2 + (e - f - t).toNat) := Nat.pow_le_pow_right two_pos hk
        _ = 2 ^ m.log2 * 2 ^ (e - f - t).toNat := pow_add _ _ _
        _ ≤ m * 2 ^ (e - f - t).toNat := Nat.mul_le_mul_right _ (Nat.log2_self_le hm.ne')
    have := (Nat.le_log2 (by omega)).mpr hquot
    omega

theorem div_finite_spec (s t : Sign) {m n : ℕ} {e f : ℤ} (hm : 0 < m) (hn : 0 < n) :
    NearestUnpacked (signed (s / t) (m * 2 ^ e / (n * 2 ^ f)))
      (UnpackedFloat.div .binary64 (.finite s m e hm) (.finite t n f hn)) := by
  refine roundWithAccuracy_spec (s / t) ?_ (divCore_full hm hn)
  generalize ht : min (e - f) (Format.binary64.targetExponent
    (totalExponent m e - totalExponent n f)) = u
  have hk : ((e - f - u).toNat : ℤ) = e - f - u := Int.toNat_of_nonneg (by omega)
  have hpow : (2 : ℚ) ^ (e - f - u).toNat = 2 ^ e / 2 ^ f / 2 ^ u := by
    rw [← zpow_natCast, hk, zpow_sub₀ two_ne_zero, zpow_sub₀ two_ne_zero]
  have hfraction := Represents.fraction (m <<< (e - f - u).toNat) hn
  convert hfraction using 1
  rw [Nat.shiftLeft_eq]
  push_cast
  rw [hpow]
  field_simp

end RenderGate.Double
