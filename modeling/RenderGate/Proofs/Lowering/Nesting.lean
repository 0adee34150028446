import RenderGate.Proofs.Lowering.Layout

/-!
# What the counter of nesting decides

The counter decides only which texts are refused as nested too deep, and such a refusal names the
node at which the counter would have exceeded its limit.  To say which node that is, the lowering is
also run with a trail of the nodes that it enters; apart from the trail it does the same.
-/

namespace RenderGate

open Concrete (Source Tree)

/-- The ways to enter a node, by what they give. -/
inductive Entry : Type → Type
  | statement : Entry Node
  | expression (context : ExprContext) : Entry Node
  | pattern : Entry Node
  /-- The left operand of a chain of the boolean operator with the given token. -/
  | operands (token : String) : Entry (List Node)

namespace Scope

def enter {m : Type → Type} (scope : Scope m) {α : Type} : Entry α → Tree → m α
  | .statement, t => scope.statement t
  | .expression context, t => scope.expression context t
  | .pattern, t => scope.pattern t
  | .operands token, t => scope.operands token t

theorem Agrees.enter {m m' : Type → Type} [Monad m] [Monad m'] [LawfulMonad m] [LawfulMonad m']
    [MonadExcept ParseError m] [MonadExcept ParseError m'] {s s' : Source} {L : Likeness s s' m m'}
    {S : Scope m} {S' : Scope m'} (h : S.Agrees L S') {α : Type} (entry : Entry α) {t t' : Tree}
    (ht : L.Like t t') : Agree L.toAccord Eq (S.enter entry t) (S'.enter entry t') := by
  cases entry with
  | statement => exact h.statement ht
  | expression context => exact h.expression context ht
  | pattern => exact h.pattern ht
  | operands token => exact h.operands token ht

end Scope

/-- The result of entering a node with the counter at a depth, and the counter after it. -/
def lowerAt (source : Source) {α : Type} (entry : Entry α) (t : Tree) (depth : ℕ) : Lowered α × ℕ :=
  ((Scope.counted source).enter entry t).run.run depth

theorem lowerAt_eq (source : Source) {α : Type} (entry : Entry α) (t : Tree) (depth : ℕ) :
    lowerAt source entry t depth =
      ((Scope.withLevels source (nestingLimit - depth)).enter entry t, depth) :=
  run_eq_of_agree ((Scope.agrees_counted source depth).enter entry (rfl : t = t))

/-- Nodes beside each other are lowered at the same depth, each as if it stood alone. -/
theorem run_mapM_enter (source : Source) {α : Type} (entry : Entry α) (ts : List Tree)
    (depth : ℕ) : (ts.mapM ((Scope.counted source).enter entry)).run.run depth =
      (ts.mapM fun t => (lowerAt source entry t depth).1, depth) := by
  have hlevels : (fun t => (lowerAt source entry t depth).1) =
      (Scope.withLevels source (nestingLimit - depth)).enter entry :=
    funext fun t => congrArg Prod.fst (lowerAt_eq source entry t depth)
  rw [hlevels]
  have hself : List.Forall₂ Eq ts ts := List.forall₂_refl ts
  exact run_eq_of_agree (.mapM hself fun _ _ ht =>
    (Scope.agrees_counted source depth).enter entry ht)

/-- From the lower of two depths a node is lowered to the same tree or refused with the same error,
unless it is nested too deep from the higher one. -/
theorem lowerAt_of_le (source : Source) {α : Type} (entry : Entry α) (t : Tree) {depth depth' : ℕ}
    (h : depth ≤ depth') :
    (lowerAt source entry t depth).1 = (lowerAt source entry t depth').1 ∨
      ∃ e : ParseError, e.IsTooDeep ∧ (lowerAt source entry t depth').1 = .error e := by
  have hagree := (Scope.agrees_withLevels_of_le source
    (Nat.sub_le_sub_left h nestingLimit)).enter entry (rfl : t = t)
  rw [lowerAt_eq, lowerAt_eq]
  exact (eq_or_tooDeep_of_agree hagree).imp_left Eq.symm

/-- The nodes that were entered, the last one first, each with the counter before it. -/
abbrev Trail := List (Tree × ℕ)

abbrev Followed := Counting (StateM Trail)

def follow (source : Source) {α : Type} (t : Tree) (lower : Followed α) : Followed α := do
  let depth ← getThe ℕ
  modifyThe Trail ((t, depth) :: ·)
  nested source t lower

def Scope.followed (source : Source) : Scope Followed :=
  levels (follow source) source (nestingLimit + 1)

/-- What a node gives that is entered with the counter at a depth, the counter after it, and the
trail. -/
def followAt (source : Source) {α : Type} (entry : Entry α) (t : Tree) (depth : ℕ) :
    (Lowered α × ℕ) × Trail :=
  (((Scope.followed source).enter entry t).run.run depth).run []

/-- The counter did not exceed the limit when the nodes were entered. -/
def Trail.Within (trail : Trail) : Prop := ∀ q ∈ trail, q.2 + 1 ≤ nestingLimit

/-- What a trail says about a result: it is a refusal as nested too deep if the last node would have
raised the counter above the limit, and only then. -/
inductive Trail.Explains (source : Source) {α : Type} : Trail → Lowered α → Prop
  | within {trail : Trail} {r : Lowered α} (h : trail.Within)
      (hr : ∀ limit p, r ≠ .error (.fault (.tooDeep limit) p)) : Explains source trail r
  | exceeded {u : Tree} {depth : ℕ} {trail : Trail} (h : trail.Within)
      (hu : nestingLimit < depth + 1) :
      Explains source ((u, depth) :: trail)
        (.error (.fault (.tooDeep nestingLimit) (source.startOf u)))

/-- A lowering that leaves a trail agrees with one that has `k` levels. -/
def followedAccord (source : Source) (k : ℕ) : Accord Followed Lowered where
  Rel R x y := ∀ depth (trail : Trail), nestingLimit - depth = k → trail.Within →
    ∃ r trail', (x.run.run depth).run trail = ((r, depth), trail') ∧
      Tolerance.strict.Rel R r y ∧ Trail.Explains source trail' r
  pure h _ trail _ htrail := ⟨_, trail, rfl, .ok h, .within htrail nofun⟩
  bind {α β γ δ R P x y f g} h hf := by
    intro depth trail hdepth htrail
    obtain ⟨r, trail', hrun, hrel, hexplains⟩ := h depth trail hdepth htrail
    have hbind : ((x >>= f).run.run depth).run trail = _ :=
      congrArg (StateT.run · trail) (Counting.run_bind x f depth)
    rw [StateT.run_bind, hrun] at hbind
    cases hrel with
    | ok hab =>
        obtain ⟨htrail', -⟩ := hexplains
        rw [hbind]
        exact hf _ _ hab depth trail' hdepth htrail'
    | error hde =>
        refine ⟨_, trail', hbind, .error hde, ?_⟩
        cases hexplains with
        | within htrail' hr =>
            exact .within htrail' fun limit p heq => hr limit p (congrArg _ (Except.error.inj heq))
        | exceeded htrail' hu => exact .exceeded htrail' hu
    | excused hd => exact hd.elim

theorem run_follow (source : Source) {α : Type} (t : Tree) (lower : Followed α) (depth : ℕ)
    (trail : Trail) : ((follow source t lower).run.run depth).run trail =
      ((nested source t lower).run.run depth).run ((t, depth) :: trail) := rfl

theorem followedAccord_fault (source : Source) (k : ℕ) (t : Tree) {α β : Type} {R : α → β → Prop}
    (f : Fault) (hf : ∀ limit, f ≠ .tooDeep limit) : (followedAccord source k).Rel R
      (throw (.fault f (source.startOf t))) (throw (.fault f (source.startOf t))) := by
  intro depth trail _ htrail
  refine ⟨_, trail, rfl, .error rfl, .within htrail fun limit p heq => ?_⟩
  exact hf limit (ParseError.fault.inj (Except.error.inj heq)).1

theorem Scope.agrees_followed (source : Source) (depth : ℕ) :
    (followed source).Agrees ((followedAccord source (nestingLimit - depth)).likeness source
      (followedAccord_fault source _)) (withLevels source (nestingLimit - depth)) := by
  refine agrees_levels (followedAccord_fault source) ?_ ?_ (by omega)
  · intro α t x depth trail hdepth htrail
    refine ⟨tooDeep source t, (t, depth) :: trail, ?_, .refl _, .exceeded htrail (by omega)⟩
    rw [run_follow, Counting.run_nested, if_pos (by omega)]
    rfl
  · intro k α t x y h depth trail hdepth htrail
    have hopen : Trail.Within ((t, depth) :: trail) :=
      List.forall_mem_cons.mpr ⟨show depth + 1 ≤ nestingLimit by omega, htrail⟩
    obtain ⟨r, trail', hrun, hrel, hexplains⟩ := h (depth + 1) _ (by omega) hopen
    refine ⟨r, trail', ?_, hrel, hexplains⟩
    rw [run_follow, Counting.run_nested, if_neg (by omega), StateT.run_map, hrun]
    rfl

/-- A trail changes nothing, and it explains the result. -/
theorem followAt_eq (source : Source) {α : Type} (entry : Entry α) (t : Tree) (depth : ℕ) :
    ∃ trail, followAt source entry t depth = (lowerAt source entry t depth, trail) ∧
      trail.Explains source (lowerAt source entry t depth).1 := by
  obtain ⟨r, trail, hrun, hrel, hexplains⟩ := (Scope.agrees_followed source depth).enter entry
    (rfl : t = t) depth [] rfl (List.forall_mem_nil _)
  rw [lowerAt_eq, ← hrel.eq]
  exact ⟨trail, hrun, hexplains⟩

/-- The counter of nesting decides only what is refused as nested too deep.  From the lower of two
depths a node gives the same tree or the same other error as from the higher one; the counter is
left as it was, whatever the result, so nodes beside each other are lowered at one depth; and a
refusal as nested too deep stands at the start of the first node that would have raised the counter
above its limit. -/
theorem lowerAt_nesting (source : Source) {α : Type} (entry : Entry α) (t : Tree) {depth depth' : ℕ}
    (h : depth ≤ depth') :
    (∀ a, (lowerAt source entry t depth').1 = .ok a → (lowerAt source entry t depth).1 = .ok a) ∧
      (∀ e, (∀ limit p, e ≠ .fault (.tooDeep limit) p) →
        (lowerAt source entry t depth').1 = .error e →
          (lowerAt source entry t depth).1 = .error e) ∧
      (lowerAt source entry t depth).2 = depth ∧ (lowerAt source entry t depth').2 = depth' ∧
      (∀ ts : List Tree, (ts.mapM ((Scope.counted source).enter entry)).run.run depth =
        (ts.mapM fun u => (lowerAt source entry u depth).1, depth)) ∧
      ∀ limit p, (lowerAt source entry t depth).1 = .error (.fault (.tooDeep limit) p) →
        limit = nestingLimit ∧ ∃ u before, ∃ trail : Trail,
          followAt source entry t depth = (lowerAt source entry t depth, (u, before) :: trail) ∧
            p = source.startOf u ∧ nestingLimit < before + 1 ∧ trail.Within := by
  have hle := lowerAt_of_le source entry t h
  refine ⟨fun a ha => ?_, fun e he ha => ?_, congrArg Prod.snd (lowerAt_eq source entry t depth),
    congrArg Prod.snd (lowerAt_eq source entry t depth'),
    fun ts => run_mapM_enter source entry ts depth, fun limit p hdeep => ?_⟩
  · rcases hle with heq | ⟨e, -, he⟩
    · exact heq.trans ha
    · exact absurd (ha.symm.trans he) nofun
  · rcases hle with heq | ⟨d, ⟨p, rfl⟩, hd⟩
    · exact heq.trans ha
    · exact absurd (Except.error.inj (ha.symm.trans hd)) (he nestingLimit p)
  · obtain ⟨trail, hfollow, hexplains⟩ := followAt_eq source entry t depth
    rw [hdeep] at hexplains
    cases hexplains with
    | within _ hr => exact absurd rfl (hr limit p)
    | @exceeded u before trail htrail hu => exact ⟨rfl, u, before, trail, hfollow, rfl, hu, htrail⟩

theorem lowerAt_nesting_name :
    (lowerAt (Source.ofText "x") (.expression .load) (.node (.bare "identifier" false 0 1) [])
        0).1 = .ok (.of (.name "x") [.ctx .load]) ∧
      ∃ u before, ∃ trail : Trail,
        followAt (Source.ofText "x") (.expression .load) (.node (.bare "identifier" false 0 1) [])
          nestingLimit = ((.error (.fault (.tooDeep nestingLimit) ⟨1, 1⟩), nestingLimit),
            (u, before) :: trail) ∧ nestingLimit < before + 1 := by
  have hname : (lowerAt (Source.ofText "x") (.expression .load)
      (.node (.bare "identifier" false 0 1) []) 255).1 = .ok (.of (.name "x") [.ctx .load]) := by
    decide +kernel
  have hdeep : lowerAt (Source.ofText "x") (.expression .load)
      (.node (.bare "identifier" false 0 1) []) nestingLimit =
        (.error (.fault (.tooDeep nestingLimit) ⟨1, 1⟩), nestingLimit) := by decide +kernel
  obtain ⟨-, u, before, trail, hfollow, -, hbefore, -⟩ :=
    (lowerAt_nesting (Source.ofText "x") (.expression .load)
      (.node (.bare "identifier" false 0 1) []) (Nat.le_refl nestingLimit)).2.2.2.2.2 _ _
        (congrArg Prod.fst hdeep)
  refine ⟨(lowerAt_nesting _ _ _ (show 0 ≤ 255 by decide)).1 _ hname, u, before, trail, ?_, hbefore⟩
  rw [hfollow, hdeep]

end RenderGate
