import Mathlib.Data.List.Forall2
import Mathlib.Data.Option.Basic

/-!
# Related lists and options

Lists that are related element by element stay so if the same elements are taken from both, and so
do the options that are found in them.
-/

namespace RenderGate

variable {α β : Type} {R : α → β → Prop} {p : α → Bool} {q : β → Bool} {as : List α} {bs : List β}

theorem forall₂_filter (h : List.Forall₂ R as bs) (hpq : ∀ a b, R a b → p a = q b) :
    List.Forall₂ R (as.filter p) (bs.filter q) :=
  List.rel_filter (fun a b hab => iff_of_eq (congrArg (· = true) (hpq a b hab))) h

theorem forall₂_eraseP (h : List.Forall₂ R as bs) (hpq : ∀ a b, R a b → p a = q b) :
    List.Forall₂ R (as.eraseP p) (bs.eraseP q) := by
  induction h with
  | nil => exact .nil
  | @cons a b as bs hab htail ih =>
      rw [List.eraseP_cons, List.eraseP_cons, hpq a b hab]
      cases q b with
      | true => exact htail
      | false => exact .cons hab ih

theorem rel_head? (h : List.Forall₂ R as bs) : Option.Rel R as.head? bs.head? := by
  cases h with
  | nil => exact .none
  | cons hab _ => exact .some hab

theorem rel_getLast? (h : List.Forall₂ R as bs) : Option.Rel R as.getLast? bs.getLast? := by
  rw [List.getLast?_eq_head?_reverse, List.getLast?_eq_head?_reverse]
  exact rel_head? (List.rel_reverse h)

theorem rel_find? (h : List.Forall₂ R as bs) (hpq : ∀ a b, R a b → p a = q b) :
    Option.Rel R (as.find? p) (bs.find? q) := by
  rw [← List.head?_filter, ← List.head?_filter]
  exact rel_head? (forall₂_filter h hpq)

/-- Two related options hold related values, or neither holds one. -/
theorem rel_cases {a : Option α} {b : Option β} (h : Option.Rel R a b) :
    (a = none ∧ b = none) ∨ ∃ x y, a = some x ∧ b = some y ∧ R x y := by
  cases h with
  | some hxy => exact .inr ⟨_, _, rfl, rfl, hxy⟩
  | none => exact .inl ⟨rfl, rfl⟩

theorem forall₂_and_map {γ : Type} {u : α → γ} {v : β → γ} (h : List.Forall₂ R as bs)
    (huv : as.map u = bs.map v) : List.Forall₂ (fun a b => R a b ∧ u a = v b) as bs := by
  induction h with
  | nil => exact .nil
  | cons hab _ ih =>
      rw [List.map_cons, List.map_cons, List.cons.injEq] at huv
      exact .cons ⟨hab, huv.1⟩ (ih huv.2)

theorem isEmpty_eq_of_forall₂ (h : List.Forall₂ R as bs) : as.isEmpty = bs.isEmpty := by
  cases h with
  | nil => rfl
  | cons _ _ => rfl

theorem isSome_eq_of_rel {a : Option α} {b : Option β} (h : Option.Rel R a b) :
    a.isSome = b.isSome := by
  cases h with
  | some _ => rfl
  | none => rfl

theorem isSome_bind_eq {γ δ : Type} {f : α → Option γ} {g : β → Option δ} {a : Option α}
    {b : Option β} (h : Option.Rel R a b) (hfg : ∀ a b, R a b → (f a).isSome = (g b).isSome) :
    (a.bind f).isSome = (b.bind g).isSome := by
  cases h with
  | some hab => exact hfg _ _ hab
  | none => rfl

theorem map_eq_of_toList {γ : Type} {u : α → γ} {v : β → γ} {a : Option α} {b : Option β}
    (h : a.toList.map u = b.toList.map v) : a.map u = b.map v := by
  rw [← Option.toList_map, ← Option.toList_map] at h
  rw [← Option.head?_toList (o := a.map u), h, Option.head?_toList]

/-- What is read at the elements of two lists agrees element by element if it agrees in order. -/
theorem forall₂_filterMap {γ δ ε : Type} {f : α → Option γ} {g : β → Option δ} {u : γ → ε}
    {v : δ → ε} (h : List.Forall₂ R as bs) (hfg : ∀ a b, R a b → (f a).isSome = (g b).isSome)
    (huv : (as.filterMap f).map u = (bs.filterMap g).map v) :
    List.Forall₂ (fun a b => R a b ∧ (f a).map u = (g b).map v) as bs := by
  induction h with
  | nil => exact .nil
  | @cons a b as bs hab _ ih =>
      have hsome := hfg a b hab
      rw [List.filterMap_cons, List.filterMap_cons] at huv
      cases hf : f a with
      | none =>
          rw [hf, Option.isSome_none] at hsome
          have hg : g b = none :=
            Option.isNone_iff_eq_none.mp (Option.isSome_eq_false_iff.mp hsome.symm)
          rw [hf, hg] at huv
          exact .cons ⟨hab, by rw [hf, hg]; rfl⟩ (ih huv)
      | some x =>
          rw [hf, Option.isSome_some] at hsome
          obtain ⟨y, hg⟩ := Option.isSome_iff_exists.mp hsome.symm
          rw [hf, hg, List.map_cons, List.map_cons, List.cons.injEq] at huv
          exact .cons ⟨hab, by rw [hf, hg, Option.map_some, Option.map_some, huv.1]⟩ (ih huv.2)

theorem filter_eraseP {α : Type} {p q : α → Bool} {as : List α}
    (h : ∀ a ∈ as, p a = true → q a = true) :
    (as.eraseP p).filter q = (as.filter q).eraseP p := by
  induction as with
  | nil => rfl
  | cons a as ih =>
      have hs := ih fun b hb => h b (List.mem_cons_of_mem a hb)
      cases hp : p a with
      | true =>
          have hq := h a List.mem_cons_self hp
          rw [List.eraseP_cons_of_pos hp, List.filter_cons_of_pos hq, List.eraseP_cons_of_pos hp]
      | false =>
          have hp' : ¬ p a = true := by rw [hp]; exact Bool.false_ne_true
          rw [List.eraseP_cons_of_neg hp']
          cases hq : q a with
          | true =>
              rw [List.filter_cons_of_pos hq, List.filter_cons_of_pos hq,
                List.eraseP_cons_of_neg hp', hs]
          | false =>
              have hq' : ¬ q a = true := by rw [hq]; exact Bool.false_ne_true
              rw [List.filter_cons_of_neg hq', List.filter_cons_of_neg hq', hs]

theorem mem_of_lookup_eq_some {α β : Type} [BEq α] [LawfulBEq α] {entries : List (α × β)} {key : α}
    {value : β} (h : entries.lookup key = some value) : (key, value) ∈ entries := by
  obtain ⟨before, after, hentries, _⟩ := List.lookup_eq_some_iff.mp h
  rw [hentries]
  exact List.mem_append_right _ List.mem_cons_self

end RenderGate
