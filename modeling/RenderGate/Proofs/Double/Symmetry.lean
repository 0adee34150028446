import RenderGate.Proofs.Double.Exact

/-!
# Two doubles in either order

The difference of two doubles has the size of the difference the other way round, whatever the two
are: also where it overflows, and where it is not a number (`abs_sub_comm`).  Doubles of which
neither is less are the same but for the sign of a zero (`eq_or_rat_eq_zero`).
-/

namespace RenderGate.Double

open Float.Model Float.Model.UnpackedFloat

theorem Normal.abs {u : UnpackedFloat} (h : Normal u) : Normal u.abs := by
  cases u with
  | finite s m e hm => exact h
  | _ => trivial

theorem abs_of_number_eq_zero {u : UnpackedFloat} (f : u.isFinite = true) (h : number u = 0) :
    u.abs = .zero .positive := by
  cases u with
  | infinity => simp [UnpackedFloat.isFinite] at f
  | notANumber => simp [UnpackedFloat.isFinite] at f
  | zero s => rfl
  | finite s m e hm =>
      cases s
      · exact absurd h (number_negative_neg m e hm).ne
      · exact absurd h (number_positive_pos m e hm).ne'

/-- The doubles nearest to a number and to its negative have the same size, also as zeros. -/
theorem NearestUnpacked.abs_eq {q : ℚ} {u v : UnpackedFloat} (hu : NearestUnpacked q u)
    (hv : NearestUnpacked (-q) v) : u.abs = v.abs := by
  have hneg : number v = -number u := hv.rounds.unique hu.rounds.neg
  by_cases h₀ : number u = 0
  · rw [abs_of_number_eq_zero hu.finite h₀,
      abs_of_number_eq_zero hv.finite (by rw [hneg, h₀, neg_zero])]
  · refine eq_of_number_eq hu.normal.abs hv.normal.abs ?_ ?_
    · rw [number_abs, number_abs, hneg, abs_neg]
    · rw [number_abs]
      exact abs_ne_zero.mpr h₀

theorem Normal.sub {u v : UnpackedFloat} (hu : Normal u) (hv : Normal v) :
    Normal (UnpackedFloat.sub .binary64 u v) := by
  by_cases h : u.isFinite = true ∧ v.isFinite = true
  · exact (sub_unpacked_spec hu hv h.1 h.2).normal
  · cases u with
    | infinity s =>
        cases v with
        | infinity t => cases s <;> cases t <;> trivial
        | _ => trivial
    | notANumber => cases v <;> trivial
    | zero s =>
        cases v with
        | infinity t => trivial
        | notANumber => trivial
        | _ => exact absurd ⟨rfl, rfl⟩ h
    | finite s m e hm =>
        cases v with
        | infinity t => trivial
        | notANumber => trivial
        | _ => exact absurd ⟨rfl, rfl⟩ h

theorem abs_sub_unpacked_comm {u v : UnpackedFloat} (hu : Normal u) (hv : Normal v) :
    (UnpackedFloat.sub .binary64 u v).abs = (UnpackedFloat.sub .binary64 v u).abs := by
  by_cases h : u.isFinite = true ∧ v.isFinite = true
  · refine (sub_unpacked_spec hu hv h.1 h.2).abs_eq ?_
    rw [neg_sub]
    exact sub_unpacked_spec hv hu h.2 h.1
  · cases u with
    | infinity s =>
        cases v with
        | infinity t => cases s <;> cases t <;> rfl
        | _ => rfl
    | notANumber => cases v <;> rfl
    | zero s =>
        cases v with
        | infinity t => rfl
        | notANumber => rfl
        | _ => exact absurd ⟨rfl, rfl⟩ h
    | finite s m e hm =>
        cases v with
        | infinity t => rfl
        | notANumber => rfl
        | _ => exact absurd ⟨rfl, rfl⟩ h

/-- The size does not depend on whether it is taken before or after packing, also if that
overflows. -/
theorem unpack_pack_abs {u : UnpackedFloat} (h : Normal u) :
    (Float.Model.pack u).unpack.abs = (Float.Model.pack u.abs).unpack := by
  by_cases hf : Fits u
  · have hf' : Fits u.abs := by
      cases u with
      | finite s m e hm => exact hf
      | _ => trivial
    rw [unpack_pack h hf, unpack_pack h.abs hf']
  · cases u with
    | finite s m e hm =>
        have he : 971 < e := not_le.mp hf
        rw [unpack_pack_overflow s hm he]
        exact (unpack_pack_overflow .positive hm he).symm
    | _ => exact absurd trivial hf

/-- The difference of two doubles has the size of the difference the other way round, whatever
these are. -/
theorem abs_sub_comm (x y : Float) : (x - y).abs = (y - x).abs := by
  have hx := (normal_unpack x.toModel).1
  have hy := (normal_unpack y.toModel).1
  have hunpack : ∀ a b : Float, Normal a.toModel.unpack → Normal b.toModel.unpack →
      (a - b).abs.toModel.unpack =
        (Float.Model.pack
          (UnpackedFloat.sub .binary64 a.toModel.unpack b.toModel.unpack).abs).unpack := by
    intro a b ha hb
    rw [unpack_abs, ← unpack_pack_abs (ha.sub hb)]
    rfl
  apply eq_of_unpack_eq
  rw [hunpack x y hx hy, hunpack y x hy hx, abs_sub_unpacked_comm hx hy]

/-- Only finite numbers can be different where neither is less. -/
theorem eq_of_compare_ne_lt {u v : UnpackedFloat} (hu : u ≠ .notANumber) (hv : v ≠ .notANumber)
    (huv : u.compare v ≠ some .lt) (hvu : v.compare u ≠ some .lt)
    (hf : ¬ (u.isFinite = true ∧ v.isFinite = true)) : u = v := by
  cases u with
  | notANumber => exact absurd rfl hu
  | infinity s =>
      cases v with
      | notANumber => exact absurd rfl hv
      | infinity t =>
          cases s <;> cases t
          · rfl
          · exact absurd rfl huv
          · exact absurd rfl hvu
          · rfl
      | _ =>
          cases s
          · exact absurd rfl huv
          · exact absurd rfl hvu
  | zero s =>
      cases v with
      | notANumber => exact absurd rfl hv
      | infinity t =>
          cases t
          · exact absurd rfl hvu
          · exact absurd rfl huv
      | _ => exact absurd ⟨rfl, rfl⟩ hf
  | finite s m e hm =>
      cases v with
      | notANumber => exact absurd rfl hv
      | infinity t =>
          cases t
          · exact absurd rfl hvu
          · exact absurd rfl huv
      | _ => exact absurd ⟨rfl, rfl⟩ hf

theorem lt_iff_compare {x y : Float} :
    x < y ↔ x.toModel.unpack.compare y.toModel.unpack = some .lt := by
  show decide _ = true ↔ _
  rw [decide_eq_true_eq]
  exact beq_iff_eq

theorem isNaN_iff {x : Float} : x.isNaN = true ↔ x.toModel.unpack = .notANumber := by
  show x.toModel.unpack.isNaN = true ↔ _
  cases x.toModel.unpack <;> simp [UnpackedFloat.isNaN]

theorem eq_of_isNaN {x y : Float} (hx : x.isNaN = true) (hy : y.isNaN = true) : x = y :=
  eq_of_unpack_eq ((isNaN_iff.mp hx).trans (isNaN_iff.mp hy).symm)

/-- Numbers of which neither is less are the same double, or both are zeros. -/
theorem eq_or_rat_eq_zero {x y : Float} (hx : ¬ x.isNaN = true) (hy : ¬ y.isNaN = true)
    (hxy : ¬ x < y) (hyx : ¬ y < x) :
    x = y ∨ x.isFinite = true ∧ y.isFinite = true ∧ rat x = 0 ∧ rat y = 0 := by
  by_cases hf : x.isFinite = true ∧ y.isFinite = true
  · obtain ⟨fx, fy⟩ := hf
    have heq : rat x = rat y :=
      le_antisymm (not_lt.mp fun h => hyx ((lt_iff fy fx).mpr h))
        (not_lt.mp fun h => hxy ((lt_iff fx fy).mpr h))
    by_cases h₀ : rat x = 0
    · exact .inr ⟨fx, fy, h₀, heq ▸ h₀⟩
    · exact .inl (eq_of_rat_eq heq h₀)
  · left
    rw [lt_iff_compare] at hxy hyx
    apply eq_of_unpack_eq
    rw [isNaN_iff] at hx hy
    exact eq_of_compare_ne_lt hx hy hxy hyx hf

theorem not_lt_of_lt {x y : Float} (h : x < y) : ¬ y < x := by
  intro h'
  have fx : x.isFinite = true := isFinite_of_lt_of_lt h' h
  have fy : y.isFinite = true := isFinite_of_lt_of_lt h h'
  exact lt_asymm ((lt_iff fx fy).mp h) ((lt_iff fy fx).mp h')

end RenderGate.Double
