import RenderGate.Config
import RenderGate.Proofs.Double.Sum

/-!
# The composite of the signals

Weights that are accepted are finite and not negative, and their sum is near 1.  So the sum is a
finite number above 0, which the weighted signals can be divided by: three signals that are 1 have
the composite 1, whatever the rounding of the sum is.
-/

namespace RenderGate.Weights

open Double Float.Model

variable {w : Weights}

theorem finite_of_named (h : w.fault? = none) :
    ∀ e ∈ w.named, e.2.isFinite = true ∧ 0 ≤ rat e.2 := by
  intro e he
  unfold fault? at h
  split at h
  · exact absurd h (Option.some_ne_none _)
  · rename_i hfind
    have hok := List.find?_eq_none.mp hfind e he
    rw [Bool.or_eq_true, not_or, Bool.not_eq_true', Bool.not_eq_false, decide_eq_true_eq] at hok
    obtain ⟨hf, hneg⟩ := hok
    rw [lt_iff hf rfl, rat_zero] at hneg
    exact ⟨hf, not_lt.mp hneg⟩

theorem finite_token (h : w.fault? = none) : w.token.isFinite = true ∧ 0 ≤ rat w.token :=
  finite_of_named h ("token", w.token) List.mem_cons_self

theorem finite_edit (h : w.fault? = none) : w.edit.isFinite = true ∧ 0 ≤ rat w.edit :=
  finite_of_named h ("edit", w.edit) (List.mem_cons_of_mem _ List.mem_cons_self)

theorem finite_structural (h : w.fault? = none) :
    w.structural.isFinite = true ∧ 0 ≤ rat w.structural :=
  finite_of_named h ("structural", w.structural)
    (List.mem_cons_of_mem _ (List.mem_cons_of_mem _ List.mem_cons_self))

theorem nonneg_partial_sum (h : w.fault? = none) : Nonneg (w.token + w.edit) := by
  have ht : Nonneg w.token := .inl (finite_token h)
  exact ht.add (.inl (finite_edit h))

theorem nonneg_sum (h : w.fault? = none) : Nonneg w.sum :=
  (nonneg_partial_sum h).add (.inl (finite_structural h))

theorem sum_near_one (h : w.fault? = none) : ¬ tolerance < (w.sum - 1.0).abs := by
  unfold fault? at h
  split at h
  · exact absurd h (Option.some_ne_none _)
  · split at h
    · exact absurd h (Option.some_ne_none _)
    · assumption

theorem isFinite_sum (h : w.fault? = none) : w.sum.isFinite = true := by
  rcases nonneg_sum h with ⟨hf, -⟩ | hinf
  · exact hf
  · -- An infinite sum is further from 1 than the tolerance allows.
    have hsub : (w.sum - 1.0).toModel.unpack = .infinity .positive := by
      show (Float.Model.pack (UnpackedFloat.sub .binary64 w.sum.toModel.unpack _)).unpack = _
      rw [hinf]
      exact unpack_pack_infinity .positive
    refine absurd ?_ (sum_near_one h)
    show decide _ = true
    rw [decide_eq_true_eq]
    show (tolerance.toModel.unpack.compare (w.sum - 1.0).abs.toModel.unpack == some .lt) = true
    rw [unpack_abs, hsub]
    rfl

theorem sum_pos (h : w.fault? = none) : 0 < rat w.sum := by
  have hf := isFinite_sum h
  have hle := abs_rat_le_largest w.sum
  by_contra hneg
  have hnonneg : 0 ≤ rat w.sum := by
    rcases nonneg_sum h with ⟨-, h₀⟩ | hinf
    · exact h₀
    · rw [rat, hinf]
      exact le_rfl
  have hzero : rat w.sum = 0 := le_antisymm (not_lt.mp hneg) hnonneg
  have hsub := nearest_sub (y := 1.0) hf rfl (by
    rw [hzero, rat_one, zero_sub, abs_neg, abs_one]
    exact one_le_largest)
  rw [hzero, rat_one, zero_sub] at hsub
  have hrat : rat (w.sum - 1.0) = -1 := hsub.rat_eq ⟨-1, 0, by norm_num, by norm_num, by norm_num⟩
  have htol : tolerance < 1.0 := by decide
  rw [lt_iff rfl rfl, rat_one] at htol
  refine sum_near_one h ((lt_iff rfl (isFinite_abs hsub.finite)).mpr ?_)
  rwa [rat_abs, hrat, abs_neg, abs_one]

def total (w : Weights) (s : Signals) : Float :=
  s.token * w.token + s.edit * w.edit + s.structural * w.structural

/-- The weights have a total that a sum can be divided by. -/
structure Divides (w : Weights) : Prop where
  pos : ¬ w.sum ≤ 0.0
  finite : w.sum.isFinite = true

theorem Divides.rat_pos (h : w.Divides) : 0 < rat w.sum := by
  have hpos := h.pos
  rwa [le_iff h.finite rfl, rat_zero, not_le] at hpos

theorem divides_of_usable (h : w.fault? = none) : w.Divides := by
  refine ⟨?_, isFinite_sum h⟩
  rw [le_iff (isFinite_sum h) rfl, rat_zero]
  exact not_le.mpr (sum_pos h)

theorem composite_eq (h : w.Divides) (s : Signals) :
    w.composite s = Similarity.clampUnit (w.total s / w.sum) := by
  rw [composite, if_neg (by simp [h.pos, h.finite])]
  rfl

/-- Signals that are all 1 have the composite 1. -/
theorem composite_uniform_one (h : w.fault? = none) : w.composite (.uniform 1.0) = 1.0 := by
  have hdivides := divides_of_usable h
  have htotal : w.total (.uniform 1.0) = w.sum := by
    simp only [total, Signals.uniform, one_mul_eq]
    rfl
  rw [composite_eq hdivides, htotal, div_self_eq hdivides.finite hdivides.rat_pos.ne']
  decide

end RenderGate.Weights
