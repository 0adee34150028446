import RenderGate.Proofs.Lowering.Levels

/-!
# The counter of nesting

A lowering that counts how deep it is nested does what a lowering does that has as many levels as
the counter leaves, and it leaves the counter as it was.  So the counter can be forgotten: a module
is lowered as with a number of levels.
-/

namespace RenderGate

open Concrete (Source Tree)

abbrev Counting (n : Type → Type) := ExceptT ParseError (StateT ℕ n)

namespace Counting

variable {n : Type → Type} [Monad n] {α β : Type}

theorem run_bind (x : Counting n α) (f : α → Counting n β) (depth : ℕ) :
    (x >>= f).run.run depth = x.run.run depth >>= fun p => match p.1 with
      | .ok a => (f a).run.run p.2
      | .error e => pure (.error e, p.2) := by
  rw [ExceptT.run_bind, StateT.run_bind]
  refine congrArg _ (funext fun p => ?_)
  obtain ⟨_ | _, _⟩ := p <;> rfl

theorem run_ofExcept (r : Lowered α) (depth : ℕ) :
    (ofExcept r : Counting n α).run.run depth = pure (r, depth) := by
  cases r <;> rfl

theorem run_tryCatch (x : Counting n α) (handle : ParseError → Counting n α) (depth : ℕ) :
    (tryCatch x handle).run.run depth = x.run.run depth >>= fun p => match p.1 with
      | .ok a => pure (.ok a, p.2)
      | .error e => (handle e).run.run p.2 := by
  refine congrArg _ (funext fun p => ?_)
  obtain ⟨_ | _, _⟩ := p <;> rfl

variable [LawfulMonad n]

theorem run_get (depth : ℕ) :
    (get : Counting n ℕ).run.run depth = pure (.ok depth, depth) := by
  have hlift : (get : Counting n ℕ).run.run depth =
      (pure (depth, depth) >>= fun p => pure (Except.ok p.1, p.2)) := rfl
  rw [hlift, pure_bind]

theorem run_set (new depth : ℕ) :
    (set new : Counting n PUnit).run.run depth = pure (.ok ⟨⟩, new) := by
  have hlift : (set new : Counting n PUnit).run.run depth =
      (pure (PUnit.unit, new) >>= fun p => pure (Except.ok p.1, p.2)) := rfl
  rw [hlift, pure_bind]

theorem run_observing (x : Counting n α) (depth : ℕ) :
    (observing x).run.run depth = (fun p => (.ok p.1, p.2)) <$> x.run.run depth := by
  rw [observing, run_tryCatch, run_bind, bind_assoc, map_eq_pure_bind]
  refine congrArg _ (funext fun p => ?_)
  obtain ⟨_ | _, _⟩ := p <;> exact pure_bind _ _

/-- Entering a node refuses it or lowers it with the counter raised by one, and leaves the counter
as it was. -/
theorem run_nested (source : Source) (t : Tree) (lower : Counting n α) (depth : ℕ) :
    (nested source t lower).run.run depth =
      if nestingLimit < depth + 1 then pure (tooDeep source t, depth)
      else (fun p => (p.1, depth)) <$> lower.run.run (depth + 1) := by
  rw [nested, run_bind, run_get, pure_bind]
  dsimp only
  split
  · rfl
  · simp only [run_bind, run_set, run_observing, run_ofExcept, pure_bind, map_eq_pure_bind,
      bind_assoc]
    rfl

end Counting

/-- No error is excused, and no two different errors are the same. -/
def Tolerance.strict : Tolerance := ⟨Eq, fun _ => False⟩

theorem Tolerance.Rel.eq {α : Type} {r r' : Lowered α} (h : Tolerance.strict.Rel Eq r r') :
    r = r' := by
  cases h with
  | ok h | error h => exact congrArg _ h
  | excused h => exact h.elim

theorem Tolerance.Rel.refl {α : Type} (r : Lowered α) : Tolerance.strict.Rel Eq r r := by
  cases r with
  | ok a => exact .ok rfl
  | error e => exact .error rfl

namespace Scope

theorem source_levels {m : Type → Type} [Monad m] [MonadExcept ParseError m]
    (enter : {α : Type} → Tree → m α → m α) (source : Source) (k : ℕ) :
    (levels (m := m) enter source k).source = source := by
  induction k with
  | zero => rfl
  | succ k ih => exact ih

theorem levels_succ {m : Type → Type} [Monad m] [MonadExcept ParseError m]
    (enter : {α : Type} → Tree → m α → m α) (source : Source) (k : ℕ) :
    levels (m := m) enter source (k + 1) = (levels (m := m) enter source k).entered enter := rfl

/-- Lowerings that are entered in some way do what lowerings with a number of levels do, if entering
a node refuses it where no level is left and goes one level further in elsewhere. -/
theorem agrees_levels {m : Type → Type} [Monad m] [LawfulMonad m] [MonadExcept ParseError m]
    {enter : {α : Type} → Tree → m α → m α} {source : Source} {A : ℕ → Accord m Lowered}
    (hfault : ∀ k (t : Tree) {α β : Type} {R : α → β → Prop} (f : Fault),
      (∀ limit, f ≠ .tooDeep limit) →
        (A k).Rel R (throw (.fault f (source.startOf t))) (throw (.fault f (source.startOf t))))
    (hlast : ∀ {α : Type} (t : Tree) (x : m α), Agree (A 0) Eq (enter t x) (tooDeep source t))
    (henter : ∀ k {α : Type} (t : Tree) {x : m α} {y : Lowered α}, Agree (A k) Eq x y →
      Agree (A (k + 1)) Eq (enter t x) y) {k fuel : ℕ} (h : k < fuel) :
    (levels enter source fuel).Agrees ((A k).likeness source (hfault k)) (withLevels source k) := by
  induction k generalizing fuel with
  | zero =>
      cases fuel with
      | zero => exact absurd h (Nat.lt_irrefl 0)
      | succ fuel =>
          refine ⟨source_levels enter source fuel, rfl, ?_, ?_, ?_, ?_⟩
          · rintro t _ rfl
            exact hlast t _
          · rintro t _ context rfl
            exact hlast t _
          · rintro t _ rfl
            exact hlast t _
          · rintro t _ token rfl
            exact hlast t _
  | succ k ih =>
      cases fuel with
      | zero => exact absurd h (Nat.not_lt_zero _)
      | succ fuel =>
          have hinner := ih (Nat.lt_of_succ_lt_succ h)
          exact hinner.entered (K := (A (k + 1)).likeness source (hfault (k + 1))) id
            fun _ hxy => henter k _ hxy

end Scope

/-- A lowering that counts agrees with one that has `k` levels: where the counter leaves that many,
they give the same, and the counter is left as it was. -/
def countedAccord (k : ℕ) : Accord Counted Lowered where
  Rel R x y := ∀ depth, nestingLimit - depth = k →
    ∃ r, x.run.run depth = (r, depth) ∧ Tolerance.strict.Rel R r y
  pure h _ _ := ⟨_, rfl, .ok h⟩
  bind {α β γ δ R P x y f g} h hf := by
    intro depth hdepth
    obtain ⟨r, hrun, hrel⟩ := h depth hdepth
    have hbind : (x >>= f).run.run depth = _ := Counting.run_bind x f depth
    rw [hrun] at hbind
    cases hrel with
    | ok hab =>
        rw [hbind]
        exact hf _ _ hab depth hdepth
    | error hde => exact ⟨_, hbind, .error hde⟩
    | excused h => exact h.elim

theorem countedAccord_fault (source : Source) (k : ℕ) (t : Tree) {α β : Type} {R : α → β → Prop}
    (f : Fault) (_ : ∀ limit, f ≠ .tooDeep limit) : (countedAccord k).Rel R
      (throw (.fault f (source.startOf t))) (throw (.fault f (source.startOf t))) :=
  fun _ _ => ⟨_, rfl, .error rfl⟩

def countedLikeness (source : Source) (k : ℕ) : Likeness source source Counted Lowered :=
  (countedAccord k).likeness source (countedAccord_fault source k)

theorem run_eq_of_agree {α : Type} {x : Counted α} {y : Lowered α} {depth : ℕ}
    (h : Agree (countedAccord (nestingLimit - depth)) Eq x y) : x.run.run depth = (y, depth) := by
  obtain ⟨r, hrun, hrel⟩ := h depth rfl
  rw [hrun, hrel.eq]

namespace Scope

/-- However many levels are spelled out beyond the limit, the counter decides. -/
theorem agrees_levels_nested (source : Source) (depth : ℕ) {fuel : ℕ} (h : nestingLimit < fuel) :
    (levels (m := Counted) (nested source) source fuel).Agrees
      (countedLikeness source (nestingLimit - depth))
      (withLevels source (nestingLimit - depth)) := by
  refine agrees_levels (countedAccord_fault source) ?_ ?_ (by omega)
  · intro α t x depth hdepth
    refine ⟨tooDeep source t, ?_, .refl _⟩
    rw [Counting.run_nested, if_pos (by omega)]
    rfl
  · intro k α t x y h depth hdepth
    obtain ⟨r, hrun, hrel⟩ := h (depth + 1) (by omega)
    refine ⟨r, ?_, hrel⟩
    rw [Counting.run_nested, if_neg (by omega)]
    exact congrArg (fun p => (p.1, depth)) hrun

theorem agrees_counted (source : Source) (depth : ℕ) :
    (counted source).Agrees (countedLikeness source (nestingLimit - depth))
      (withLevels source (nestingLimit - depth)) :=
  agrees_levels_nested source depth (Nat.lt_succ_self nestingLimit)

/-- More levels than the limit make no difference. -/
theorem levels_nested_eq (source : Source) {fuel fuel' : ℕ} (h : nestingLimit < fuel)
    (h' : nestingLimit < fuel') : levels (m := Counted) (nested source) source fuel =
      levels (m := Counted) (nested source) source fuel' := by
  have hagrees := fun depth => agrees_levels_nested source depth h
  have hagrees' := fun depth => agrees_levels_nested source depth h'
  ext1
  · rw [source_levels, source_levels]
  · funext t depth
    exact (run_eq_of_agree ((hagrees depth).statement rfl)).trans
      (run_eq_of_agree ((hagrees' depth).statement rfl)).symm
  · funext context t depth
    exact (run_eq_of_agree ((hagrees depth).expression context rfl)).trans
      (run_eq_of_agree ((hagrees' depth).expression context rfl)).symm
  · funext t depth
    exact (run_eq_of_agree ((hagrees depth).pattern rfl)).trans
      (run_eq_of_agree ((hagrees' depth).pattern rfl)).symm
  · funext token t depth
    exact (run_eq_of_agree ((hagrees depth).operands token rfl)).trans
      (run_eq_of_agree ((hagrees' depth).operands token rfl)).symm

/-- The lowering that counts calls on itself for what lies one level further in. -/
theorem counted_eq (source : Source) :
    counted source = (counted source).entered (nested source) := by
  have hlt := Nat.lt_succ_self nestingLimit
  rw [counted, ← levels_succ]
  exact levels_nested_eq source hlt (Nat.lt_succ_of_lt hlt)

end Scope

theorem lowerModule_eq (source : Source) (root : Tree) :
    lowerModule source root = lowerWithLevels source nestingLimit root := by
  have hrun := run_eq_of_agree ((Scope.agrees_counted source 0).statements (rfl : root = root))
  rw [lowerModule, hrun]
  rfl

/-- A tree is the same with however many levels it is reached. -/
theorem lowerModule_of_lowerWithLevels {source : Source} {levels : ℕ} {root : Tree} {node : Node}
    (h : lowerWithLevels source levels root = .ok node) :
    lowerModule source root = .ok node ∨
      ∃ e : ParseError, e.IsTooDeep ∧ lowerModule source root = .error e := by
  rw [lowerModule_eq]
  rcases Nat.le_total levels nestingLimit with hle | hle
  · rcases eq_or_tooDeep_of_agree (agree_lowerWithLevels source hle root) with heq | ⟨e, -, he⟩
    · exact .inl (heq.symm.trans h)
    · exact absurd (h.symm.trans he) nofun
  · exact (eq_or_tooDeep_of_agree (agree_lowerWithLevels source hle root)).imp_left (·.trans h)

end RenderGate
