import RenderGate.Proofs.Lowering.Slots

/-!
# When a lowering gives something

A lowering gives something just if all its steps do.  The statements here say it for the steps that
lowering is put together from: one after the other, a list of trees in order, the child in a role,
the statements of a block.  They hold in both directions, so they tell what is accepted as well as
what it gives.
-/

namespace RenderGate

open Concrete (Alike Source Tree)

namespace Lowered

variable {α β : Type}

theorem bind_eq_ok_iff {m : Lowered α} {f : α → Lowered β} {b : β} :
    m >>= f = .ok b ↔ ∃ a, m = .ok a ∧ f a = .ok b := by
  cases m with
  | error e => exact iff_of_false nofun fun ⟨_, h, _⟩ => nomatch h
  | ok a => exact ⟨fun h => ⟨a, rfl, h⟩, fun ⟨_, ha, h⟩ => Except.ok.inj ha ▸ h⟩

theorem pure_eq_ok_iff {a b : α} : (pure a : Lowered α) = .ok b ↔ b = a :=
  ⟨fun h => (Except.ok.inj h).symm, fun h => h ▸ rfl⟩

/-- Trees are lowered one after the other just if each of them is. -/
theorem mapM_eq_ok_iff {f : α → Lowered β} {as : List α} {bs : List β} :
    as.mapM f = .ok bs ↔ List.Forall₂ (fun a b => f a = .ok b) as bs := by
  induction as generalizing bs with
  | nil =>
      rw [List.mapM_nil, pure_eq_ok_iff]
      exact List.forall₂_nil_left_iff.symm
  | cons a as ih =>
      simp only [List.mapM_cons, bind_eq_ok_iff, pure_eq_ok_iff, ih, List.forall₂_cons_left_iff]
      exact ⟨fun ⟨b, hb, bs', hbs, heq⟩ => ⟨b, bs', hb, hbs, heq⟩,
        fun ⟨b, bs', hb, hbs, heq⟩ => ⟨b, hb, bs', hbs, heq⟩⟩

end Lowered

namespace Scope

open Lowered

variable {S : Scope Lowered} {t c : Tree} {n : Node} {ns : List Node}

theorem unsupported_ne_ok {α : Type} {a : α} : S.unsupported t ≠ .ok a := nofun

theorem required_eq_ok_iff {name : String} :
    S.required t name = .ok c ↔ t.field? name = some c := by
  unfold required
  cases t.field? name with
  | none => exact iff_of_false nofun nofun
  | some d => rw [pure_eq_ok_iff, Option.some.injEq, eq_comm]

theorem firstNamed_eq_ok_iff : S.firstNamed t = .ok c ↔ t.named.head? = some c := by
  unfold firstNamed
  cases t.named with
  | nil => exact iff_of_false nofun nofun
  | cons d ds => rw [pure_eq_ok_iff, List.head?_cons, Option.some.injEq, eq_comm]

theorem expressionIn_eq_ok_iff {context : ExprContext} {name : String} :
    S.expressionIn context t name = .ok n ↔
      ∃ c, t.field? name = some c ∧ S.Gives (.expression context) c n := by
  simp only [expressionIn, bind_eq_ok_iff, required_eq_ok_iff]
  rfl

theorem oneOrTuple_eq_ok_iff {ts : List Tree} :
    S.oneOrTuple .load ts = .ok n ↔
      SlotValue Node.tupled (S.Gives (.expression .load)) ts n := by
  refine ⟨S.yields_oneOrTuple ts n, fun h => ?_⟩
  cases h with
  | single h => exact h
  | sequence hcount h =>
      have hexpressions := mapM_eq_ok_iff.mpr h
      match ts with
      | [] => exact bind_eq_ok_iff.mpr ⟨_, hexpressions, rfl⟩
      | [t] => exact absurd rfl hcount
      | _ :: _ :: _ => exact bind_eq_ok_iff.mpr ⟨_, hexpressions, rfl⟩

theorem suite_eq_ok_iff {name : String} :
    S.suite t name = .ok ns ↔
      ∃ block, t.field? name = some block ∧ List.Forall₂ (S.Gives .statement) block.named ns := by
  simp only [suite, statements, bind_eq_ok_iff, required_eq_ok_iff, mapM_eq_ok_iff]
  rfl

end Scope

/-- A node that is not nested too deep gives what the lowering one level further in makes of it. -/
theorem lowerAt_of_lt (source : Source) {α : Type} (entry : Entry α) (t : Tree) {depth : ℕ}
    (h : depth < nestingLimit) : lowerAt source entry t depth =
      ((Scope.withLevels source (nestingLimit - (depth + 1))).outer.enter entry t, depth) := by
  rw [lowerAt_eq, ← Scope.withLevels_succ,
    show nestingLimit - depth = nestingLimit - (depth + 1) + 1 by omega]

theorem lt_of_gives {source : Source} {depth : ℕ} {α : Type} {entry : Entry α} {t : Tree} {a : α}
    (h : Gives source depth entry t a) : depth < nestingLimit := by
  by_contra hle
  rw [gives_eq, show nestingLimit - depth = 0 by omega] at h
  cases entry <;> exact absurd h nofun

/-- What a node gives is decided where it is not nested too deep. -/
theorem gives_iff_of_lt {source : Source} {depth : ℕ} {α : Type} {entry : Entry α} {t : Tree}
    {a : α} {p : Prop} (hlt : p → depth < nestingLimit)
    (h : depth < nestingLimit → (Gives source depth entry t a ↔ p)) :
    Gives source depth entry t a ↔ p :=
  ⟨fun hgives => (h (lt_of_gives hgives)).mp hgives, fun hp => (h (hlt hp)).mpr hp⟩

/-- What a node gives at a depth it also gives where it is nested less deep. -/
theorem gives_mono {source : Source} {depth depth' : ℕ} {α : Type} {entry : Entry α} {t : Tree}
    {a : α} (h : Gives source depth' entry t a) (hle : depth ≤ depth') :
    Gives source depth entry t a := by
  rcases lowerAt_of_le source entry t hle with heq | ⟨e, -, herror⟩
  · exact heq.trans h
  · exact absurd (h.symm.trans herror) nofun

theorem gives_unique {source : Source} {depth depth' : ℕ} {α : Type} {entry : Entry α} {t : Tree}
    {a b : α} (ha : Gives source depth entry t a) (hb : Gives source depth' entry t b) : a = b := by
  have ha' := gives_mono ha (Nat.min_le_left depth depth')
  have hb' := gives_mono hb (Nat.min_le_right depth depth')
  exact Except.ok.inj (ha'.symm.trans hb')

/-- What a node gives is decided by its outline. -/
theorem gives_iff_of_alike {s s' : Source} {t t' : Tree} (h : Alike s s' t t') {depth : ℕ}
    {α : Type} {entry : Entry α} {a : α} : Gives s depth entry t a ↔ Gives s' depth entry t' a := by
  have hlevels := Scope.agrees_withLevels (L := Alike.likeness s s') (fun _ => .error rfl)
    (nestingLimit - depth)
  have hagree := hlevels.enter entry h
  simp only [gives_eq, Scope.Gives]
  revert hagree
  generalize (Scope.withLevels s (nestingLimit - depth)).enter entry t = x
  generalize (Scope.withLevels s' (nestingLimit - depth)).enter entry t' = y
  intro hagree
  cases hagree with
  | @ok b b' hb =>
      obtain rfl : b = b' := hb
      rfl
  | error _ => simp
  | excused h => exact h.elim

theorem lowerAt_expression {source : Source} {depth : ℕ} (h : depth < nestingLimit) {t : Tree}
    {form : ExpressionForm} (hform : ExpressionForm.ofKind? t.kind = some form)
    (context : ExprContext) : (lowerAt source (.expression context) t depth).1 =
      (Scope.withLevels source (nestingLimit - (depth + 1))).expressionOf context t form := by
  rw [lowerAt_of_lt source _ t h]
  show Scope.expressionNode _ context t = _
  rw [Scope.expressionNode, hform]

theorem lowerAt_statement {source : Source} {depth : ℕ} (h : depth < nestingLimit) {t : Tree}
    {form : StatementForm} (hform : StatementForm.ofKind? t.kind = some form) :
    (lowerAt source .statement t depth).1 =
      (Scope.withLevels source (nestingLimit - (depth + 1))).statementOf t form := by
  rw [lowerAt_of_lt source _ t h]
  show Scope.statementNode _ t = _
  rw [Scope.statementNode, hform]

end RenderGate
