import RenderGate.Proofs.Grammar.Pattern
import RenderGate.Proofs.Lowering.Levels

/-!
# Statements conform to the grammar

The clauses of compound statements are layers of the grammar, and each `elif` uses up one of the
branches that an `if` may have.
-/

namespace RenderGate

open Concrete (Tree)
open TreeGrammar

theorem StatementForm.values_mem {name : String} {kind : Kind} (h : (name, .values kind) ∈ kinds) :
    kind ∈ [Kind.returnValue, .raise, .assertion] := by
  simp only [kinds, List.mem_cons, Prod.mk.injEq, reduceCtorEq, and_false, false_or,
    StatementForm.values.injEq, List.not_mem_nil, or_false] at h
  rcases h with ⟨-, rfl⟩ | ⟨-, rfl⟩ | ⟨-, rfl⟩ <;> decide

theorem StatementForm.bare_mem {name : String} {kind : Kind} (h : (name, .bare kind) ∈ kinds) :
    kind ∈ [Kind.pass, .breakLoop, .continueLoop, .globalNames, .nonlocalNames] := by
  simp only [kinds, List.mem_cons, Prod.mk.injEq, reduceCtorEq, and_false, false_or,
    StatementForm.bare.injEq, List.not_mem_nil, or_false] at h
  rcases h with ⟨-, rfl⟩ | ⟨-, rfl⟩ | ⟨-, rfl⟩ | ⟨-, rfl⟩ | ⟨-, rfl⟩ <;> decide

namespace Scope

theorem syncOrAsync_mem (t : Tree) (sync async : Kind) :
    syncOrAsync t sync async ∈ [sync, async] := by
  unfold syncOrAsync
  split
  · exact List.mem_cons_of_mem _ List.mem_cons_self
  · exact List.mem_cons_self

namespace Conforms

variable {l : Limits} {P Q : Role → Node → Prop} {S : Scope Lowered} (h : S.Conforms l P)
  (g : Layer l P Q) {t : Tree}

include h in
/-- Targets, and last the value. -/
theorem assigned (ht : t.Keeps l) :
    Yields (Fills (inside P Q) [.many [.expression .store], Slot.value]) (S.assigned t) := by
  induction hn : t.size using Nat.strongRecOn generalizing t with
  | ind n ih =>
      rw [assigned_eq]
      split
      · rename_i hk
        have hleft : ∀ u, t.field? "left" = some u → u ∈ t.targets :=
          fun u hu => Tree.mem_targets_of_left (by simp [hk.1]) hu
        refine (h.targetIn .store ht hleft).bind fun target htarget => ?_
        split
        · rename_i right hright
          refine (ih _ (hn ▸ Tree.size_lt_of_field? hright) (ht.field? hright) rfl).bind
            fun rest hrest => .pure ?_
          exact hrest.prepend (List.forall_mem_singleton.mpr (.only htarget))
        · exact yields_unsupported
      · refine (h.value ht).bind fun value hv => .pure ?_
        exact .skip (.value hv .nil)

include h g

theorem assignment (ht : t.Keeps l) (hk : t.kind = "assignment") :
    Yields (Q .statement) (S.assignment t) := by
  refine (yields_field "left").bind fun left hleft => ?_
  have hs := ht.suits (Tree.mem_targets_of_left (by simp [hk]) hleft) (ht.field? hleft) .store
  refine (h.expression .store hs).bind fun target htarget => ?_
  split
  · rename_i hint hhint
    refine (h.value (ht.field? hhint)).bind fun hint hh => ?_
    split
    · rename_i value hvalue
      refine (h.value (ht.field? hvalue)).bind fun value hv => ?_
      exact .pure (g.node .annAssign (.target htarget (.value hh (.some (.only hv)))))
    · exact .pure (g.node .annAssign (.target htarget (.value hh .none)))
  · refine (yields_required ht "right").bind fun right hr => ?_
    exact (h.assigned hr).bind fun rest hrest => .pure (g.node .assign (.target htarget hrest))

theorem augmentedAssignment (ht : t.Keeps l) (hk : t.kind = "augmented_assignment") :
    Yields (Q .statement) (S.augmentedAssignment t) := by
  have hleft : ∀ u, t.field? "left" = some u → u ∈ t.targets :=
    fun u hu => Tree.mem_targets_of_left (by simp [hk]) hu
  refine .bind_any fun token => ?_
  cases ho : Operator.binary? token.kind with
  | none => exact yields_unsupported
  | some operator =>
      refine (h.targetIn .store ht hleft).bind fun target htarget => ?_
      refine (h.valueIn ht "right").bind fun value hv => ?_
      exact .pure (g.node .augAssign (.target htarget (.operator g (Operator.mem_of_lookup ho)
        (.value hv .nil))))

theorem expressionStatement (ht : t.Keeps l) :
    Yields (Q .statement) (S.expressionStatement t) := by
  have hnamed : ∀ u ∈ t.named, Tree.Keeps l u := fun u hu => ht.named hu
  have hgroup : ∀ ts : List Tree, (∀ u ∈ ts, u.Keeps l) →
      Yields (Q .statement) (do return .of .expr [← S.oneOrTuple .load ts]) := fun ts hts =>
    (h.oneOrTuple g hts).bind fun n hn => .pure (g.node .expr (.last hn))
  unfold Scope.expressionStatement
  split
  · exact yields_unsupported
  · rename_i c hc
    rw [hc] at hnamed
    have hrun := hnamed c List.mem_cons_self
    split
    · exact h.assignment g hrun ‹_›
    split
    · exact h.augmentedAssignment g hrun ‹_›
    · exact hgroup [c] hnamed
  · exact hgroup _ hnamed

omit g in
theorem deleted (hs : t.Suits l .del) :
    Yields (fun ns => ∀ n ∈ ns, P (.expression .del) n) (S.deleted t) := by
  unfold Scope.deleted
  split
  · rename_i hk
    have helements : t.elements = t.named := by
      rw [Tree.elements, hk, show ExpressionForm.ofKind? "expression_list" = some .tuple by decide]
    exact h.expressions .del fun u hu => hs.element (helements ▸ hu) (hs.keeps.named hu)
  · exact (h.expression .del hs).bind fun n hn => .pure (List.forall_mem_singleton.mpr hn)

omit h in
theorem importedName : Yields (Q .alias) (S.importedName t) := by
  have hname : ∀ name, Yields (Q .alias) (do return .leaf (.alias (← S.text name))) := fun name =>
    .bind_any fun _ => .pure (g.node .alias .nil)
  unfold Scope.importedName
  split
  · exact .bind_any hname
  · exact hname t

omit h in
theorem importedNames : Yields (fun ns => ∀ n ∈ ns, Q .alias n) (S.importedNames t) :=
  .mapM fun _ _ => importedName g

omit h in
theorem importFrom : Yields (Q .statement) (S.importFrom t) := by
  refine (importedNames g).bind fun names hn => .pure (g.node (.imports (by decide)) (.all ?_))
  refine List.forall_mem_append.mpr ⟨.each hn, fun n hm => ?_⟩
  split at hm
  · rw [List.mem_singleton.mp hm]
    exact .only (g.node .alias .nil)
  · exact absurd hm List.not_mem_nil

/-- Each alternative is one branch further down, except the last one. -/
theorem alternatives {n : ℕ} {cs : List Tree} (hcs : ∀ c ∈ cs, c.Keeps l)
    (hlen : cs.length ≤ n) :
    Yields (Fills (inside P Q) [Slot.block, .maybe [.branch n]]) (S.alternatives cs) := by
  induction cs generalizing n with
  | nil => exact .pure (.skip .none)
  | cons c cs ih =>
      obtain ⟨hc, hcs⟩ := List.forall_mem_cons.mp hcs
      cases n with
      | zero => exact absurd hlen (Nat.not_succ_le_zero _)
      | succ n =>
          rw [Scope.alternatives]
          refine (ih hcs (Nat.le_of_succ_le_succ hlen)).bind fun orelse ho => ?_
          split
          · intro body heq
            rw [← List.append_nil body]
            exact .many (.each (h.suite hc "body" body heq)) .none
          · refine (h.valueIn hc "condition").bind fun condition hcond => ?_
            refine (h.suite hc "consequence").bind fun body hb => .pure ?_
            have hif : Q (.branch (n + 1)) (.of .ifElse (condition :: body ++ orelse)) :=
              g.node .elif (.value hcond (ho.prepend (.each hb)))
            exact .skip (.some (.only hif))
          · exact yields_unsupported

theorem ifStatement (ht : t.Keeps l) (hk : t.kind = "if_statement") :
    Yields (Q .statement) (S.ifStatement t) := by
  refine (h.alternatives g (fun c hc => ht.fields hc) (ht.self.alternatives hk)).bind
    fun orelse ho => ?_
  refine (h.valueIn ht "condition").bind fun condition hc => ?_
  refine (h.suite ht "consequence").bind fun body hb => .pure (g.node .ifElse ?_)
  exact .value hc (ho.prepend (.each hb))

omit g in
theorem elseSuite (ht : t.Keeps l) :
    Yields (fun ns => ∀ n ∈ ns, P .statement n) (S.elseSuite t) := by
  unfold Scope.elseSuite
  split
  · exact h.suite (ht.field? ‹_›) "body"
  · exact .pure (List.forall_mem_nil _)

theorem forStatement (ht : t.Keeps l) (hk : t.kind = "for_statement") :
    Yields (Q .statement) (S.forStatement t) := by
  have hleft : ∀ u, t.field? "left" = some u → u ∈ t.targets :=
    fun u hu => Tree.mem_targets_of_left (by simp [hk]) hu
  refine (h.targetIn .store ht hleft).bind fun target htarget => ?_
  refine (h.valueIn ht "right").bind fun iterable hi => ?_
  refine (h.suite ht "body").bind fun body hb => (h.elseSuite ht).bind fun orelse ho => ?_
  exact .pure (g.node (.forLoop (syncOrAsync_mem t _ _)) (.target htarget (.value hi
    (.block (List.forall_mem_append.mpr ⟨hb, ho⟩)))))

theorem whileStatement (ht : t.Keeps l) : Yields (Q .statement) (S.whileStatement t) := by
  refine (h.valueIn ht "condition").bind fun condition hc => ?_
  refine (h.suite ht "body").bind fun body hb => (h.elseSuite ht).bind fun orelse ho => ?_
  exact .pure (g.node .whileLoop (.value hc (.block (List.forall_mem_append.mpr ⟨hb, ho⟩))))

omit h g in
theorem asParts (ht : t.Keeps l) :
    Yields (fun p => p.1.Keeps l ∧ p.2.Keeps l ∧ p.2 ∈ t.asTarget) (S.asParts t) := by
  unfold Scope.asParts
  split
  · rename_i value target hpair
    have hvalue : Tree.Keeps l value := ht.named (hpair ▸ List.mem_cons_self)
    have htarget : Tree.Keeps l target := ht.named (by simp [hpair])
    have hplace : t.asTarget = if target.kind = "as_pattern_target" then
        target.named.head?.toList else [target] := by rw [Tree.asTarget, hpair]
    split
    · rename_i hk
      rw [if_pos hk] at hplace
      refine yields_head.bind fun inner hi =>
        .pure ⟨hvalue, htarget.named (List.mem_of_head? hi), ?_⟩
      exact hplace ▸ Option.mem_toList.mpr hi
    · rename_i hk
      rw [if_neg hk] at hplace
      exact .pure ⟨hvalue, htarget, hplace ▸ List.mem_singleton_self target⟩
  · exact yields_unsupported

omit g in
theorem caught {ts : List Tree} (hts : ∀ u ∈ ts, u.Keeps l) :
    Yields (fun p => p.1.length ≤ 1 ∧ ∀ n ∈ p.1, P (.expression .load) n) (S.caught t ts) := by
  unfold Scope.caught
  split
  · exact .pure ⟨Nat.zero_le 1, List.forall_mem_nil _⟩
  · rename_i c
    have hc := hts c List.mem_cons_self
    split
    · refine (asParts hc).bind fun p hp => (h.value hp.1).bind fun value hv => ?_
      exact .bind_any fun name => .pure ⟨Nat.le_refl 1, List.forall_mem_singleton.mpr hv⟩
    · refine (h.value hc).bind fun value hv => ?_
      exact .pure ⟨Nat.le_refl 1, List.forall_mem_singleton.mpr hv⟩
  · rename_i value bound
    refine (h.value (hts value List.mem_cons_self)).bind fun value hv => ?_
    exact .bind_any fun name => .pure ⟨Nat.le_refl 1, List.forall_mem_singleton.mpr hv⟩
  · exact yields_unsupported

omit g in
/-- The statements of several blocks. -/
theorem blocks {ts : List Tree} (hts : ∀ u ∈ ts, u.Keeps l) :
    Yields (fun bodies => ∀ n ∈ bodies.flatten, P .statement n) (ts.mapM S.statements) :=
  .mapM_flatten fun u hu => h.statements (hts u hu)

theorem exceptHandler (ht : t.Keeps l) : Yields (Q .handler) (S.exceptHandler t) := by
  have hfilter : ∀ p : Tree → Bool, ∀ u ∈ t.named.filter p, Tree.Keeps l u :=
    fun p u hu => ht.named (List.mem_filter.mp hu).1
  refine (h.caught (hfilter _)).bind fun p hp => (h.blocks (hfilter _)).bind fun bodies hb => ?_
  exact .pure (g.node .handler (.maybe (.each hp.2) hp.1 (.block hb)))

theorem tryClause (ht : t.Keeps l) :
    Yields (fun ns => ∀ n ∈ ns, Fits (inside P Q) [.statement, .handler] n) (S.tryClause t) := by
  unfold Scope.tryClause
  split
  · exact .pure (List.forall_mem_nil _)
  · exact (h.exceptHandler g ht).bind fun n hn =>
      .pure (List.forall_mem_singleton.mpr (.cons (.only hn)))
  · exact (h.exceptHandler g ht).bind fun n hn =>
      .pure (List.forall_mem_singleton.mpr (.cons (.only hn)))
  · exact fun ns heq n hn => .head (h.suite ht "body" ns heq n hn)
  · exact (h.blocks fun u hu => ht.named hu).bind fun bodies hb =>
      .pure fun n hn => .head (hb n hn)
  · exact yields_unsupported

theorem tryStatement (ht : t.Keeps l) : Yields (Q .statement) (S.tryStatement t) := by
  have hclauses : ∀ u ∈ t.named, Yields _ (S.tryClause u) := fun u hu => h.tryClause g (ht.named hu)
  refine (h.suite ht "body").bind fun body hb => ?_
  refine (Yields.mapM_flatten hclauses).bind fun clauses hc =>
    .pure (g.node (.tryBlock ?_) (.all ?_))
  · split <;> decide
  · exact List.forall_mem_append.mpr ⟨fun n hn => .head (hb n hn), hc⟩

theorem withItem (ht : t.Keeps l)
    (htarget : ∀ u ∈ t.withTarget, u.Keeps l → u.Suits l .store) :
    Yields (Q .withItem) (S.withItem t) := by
  refine (yields_field "value").bind fun value hvalue => ?_
  unfold Tree.withTarget at htarget
  rw [hvalue] at htarget
  split
  · rename_i hk
    refine (asParts (ht.field? hvalue)).bind fun p hp => (h.value hp.1).bind fun manager hm => ?_
    have hs := htarget p.2 (by simpa [hk] using hp.2.2) hp.2.1
    refine (h.expression .store hs).bind fun target htarget => ?_
    exact .pure (g.node .withItem (.value hm (.some (.only htarget))))
  · exact (h.value (ht.field? hvalue)).bind fun manager hm =>
      .pure (g.node .withItem (.value hm .none))

theorem withStatement (ht : t.Keeps l) : Yields (Q .statement) (S.withStatement t) := by
  have hitems : ∀ u ∈ (t.named.filter fun (c : Tree) => c.kind == "with_clause").flatMap Tree.named,
      Yields (Q .withItem) (S.withItem u) := by
    intro u hu
    obtain ⟨clause, hclause, hu⟩ := List.mem_flatMap.mp hu
    obtain ⟨hclause, hk⟩ := List.mem_filter.mp hclause
    refine h.withItem g ((ht.named hclause).named hu) fun v hv hkeeps => ?_
    exact (ht.named hclause).suits (Tree.mem_targets_of_with (eq_of_beq hk) hu hv) hkeeps .store
  refine (Yields.mapM hitems).bind fun items hi => (h.suite ht "body").bind fun body hb => ?_
  exact .pure (g.node (.withBlock (syncOrAsync_mem t _ _))
    (.many (.each hi) (.block hb)))

theorem typeParameterOf (ht : t.Keeps l) :
    Yields (Q .typeParameter) (S.typeParameterOf t) := by
  unfold Scope.typeParameterOf
  split
  · exact .pure (g.node .typeVar .none)
  · split
    · rename_i bound hpair
      refine (h.value (ht.named (by simp [hpair]))).bind fun bound hb => ?_
      exact .pure (g.node .typeVar (.some (.only hb)))
    · exact yields_unsupported
  · refine .pure (g.node (.typeVars ?_) .nil)
    split <;> decide
  · exact yields_unsupported

theorem typeParameter (ht : t.Keeps l) : Yields (Q .typeParameter) (S.typeParameter t) := by
  rw [typeParameter_eq]
  split
  · exact (yields_firstNamed ht).bind fun inner hi => h.typeParameterOf g hi
  · exact h.typeParameterOf g ht

theorem typeParameters (ht : t.Keeps l) :
    Yields (fun ns => ∀ n ∈ ns, Q .typeParameter n) (S.typeParameters t) := by
  unfold Scope.typeParameters
  split
  · exact .mapM fun u hu => h.typeParameter g ((ht.field? ‹_›).named hu)
  · exact .pure (List.forall_mem_nil _)

theorem functionDefinition {decorators : List Node} (hd : ∀ n ∈ decorators, P (.expression .load) n)
    (ht : t.Keeps l) : Yields (Q .statement) (S.functionDefinition decorators t) := by
  refine .bind_any fun inner => .bind_any fun name => ?_
  refine (h.typeParameters g ht).bind fun typeParameters htp => ?_
  refine (h.parameters g ht).bind fun parameters hp => ?_
  have hrest : ∀ returns : List Node, returns.length ≤ 1 →
      (∀ n ∈ returns, P (.expression .load) n) → Yields (Q .statement) (do
        let body ← S.suite t "body"
        return .of (syncOrAsync t (.functionDef name) (.asyncFunctionDef name))
          (decorators ++ typeParameters ++ parameters :: returns ++ body)) := by
    intro returns hlen hr
    refine (h.suite ht "body").bind fun body hb =>
      .pure (g.node (.function (syncOrAsync_mem t _ _)) ?_)
    rw [List.append_assoc, List.append_assoc]
    exact .values hd (.many (.each htp) (.one (.only hp)
      (.maybe (.each hr) hlen (.block hb))))
  split
  · rename_i type htype
    exact (h.value (ht.field? htype)).singleton.bind fun returns hr =>
      hrest returns (Nat.le_of_eq hr.1) hr.2
  · exact hrest [] (Nat.zero_le 1) (List.forall_mem_nil _)

theorem classDefinition {decorators : List Node} (hd : ∀ n ∈ decorators, P (.expression .load) n)
    (ht : t.Keeps l) : Yields (Q .statement) (S.classDefinition decorators t) := by
  refine .bind_any fun inner => .bind_any fun name => ?_
  refine (h.typeParameters g ht).bind fun typeParameters htp => ?_
  have hrest : ∀ bases : List Node,
      (∀ n ∈ bases, Fits (inside P Q) [.keyword, .expression .load] n) →
      Yields (Q .statement) (do
        let body ← S.suite t "body"
        return .of (.classDef name) (decorators ++ typeParameters ++ bases ++ body)) := by
    intro bases hbases
    refine (h.suite ht "body").bind fun body hb => .pure (g.node .classDef ?_)
    rw [List.append_assoc, List.append_assoc]
    exact .values hd (.many (.each htp) (.many hbases (.block hb)))
  split
  · rename_i list hlist
    exact (h.arguments g (ht.field? hlist)).bind hrest
  · exact hrest [] (List.forall_mem_nil _)

theorem decorated (ht : t.Keeps l) : Yields (Q .statement) (S.decorated t) := by
  have hdecorators : ∀ u ∈ t.named.filter fun (c : Tree) => c.kind == "decorator",
      Yields (P (.expression .load)) (S.decorator u) := fun u hu =>
    (yields_firstNamed (ht.named (List.mem_filter.mp hu).1)).bind fun _ hi => h.value hi
  refine (Yields.mapM hdecorators).bind fun decorators hd => ?_
  refine (yields_required ht "definition").bind fun definition hdef => ?_
  split
  · exact h.functionDefinition g hd hdef
  · exact h.classDefinition g hd hdef
  · exact yields_unsupported

theorem aliasTarget (ht : t.Keeps l)
    (hname : ∀ u ∈ t.aliasName, u.Keeps l → u.Suits l .store) :
    Yields (Fills (inside P Q) [Slot.target, .many [.typeParameter]]) (S.aliasTarget t) := by
  have hparameters : ∀ ts : List Tree, (∀ u ∈ ts, u.Keeps l) →
      ∀ name, P (.expression .store) name →
      Yields (Fills (inside P Q) [Slot.target, .many [.typeParameter]])
        (do return name :: (← ts.mapM S.typeParameter)) := fun ts hts name hn =>
    (Yields.mapM fun u hu => h.typeParameter g (hts u hu)).bind fun ns hns =>
      .pure (.target hn (.all (.each hns)))
  unfold Scope.aliasTarget
  unfold Tree.aliasName at hname
  split
  · rename_i hk
    rw [hk] at hname
    refine yields_head.bind fun inner hi => ?_
    have hs := hname inner (Option.mem_toList.mpr hi) (ht.named (List.mem_of_head? hi))
    refine (h.expression .store hs).bind (hparameters _ fun u hu => ?_)
    obtain ⟨list, hlist, hu⟩ := List.mem_flatMap.mp hu
    exact (ht.named (List.mem_filter.mp hlist).1).named hu
  · rename_i hk
    rw [hk] at hname
    have hvalue : Yields (P (.expression .store)) (S.expressionIn .store t "value") :=
      (yields_field "value").bind fun value hvalue =>
        h.expression .store (hname value (Option.mem_toList.mpr hvalue) (ht.field? hvalue))
    exact hvalue.bind (hparameters _ fun u hu => ht.fields hu)
  · exact (h.expression .store (hname t (by simp [*]) ht)).bind fun name hn =>
      .pure (.target hn (.all (List.forall_mem_nil _)))

theorem typeAlias (ht : t.Keeps l) (hk : t.kind = "type_alias_statement") :
    Yields (Q .statement) (S.typeAlias t) := by
  have hrest : ∀ left, Tree.Keeps l left → (∀ u ∈ left.aliasName, u ∈ t.targets) →
      Yields (Q .statement) (do
        let target ← S.aliasTarget left
        return .of .typeAlias (target ++ [← S.expressionIn .load t "right"])) := by
    intro left hl hname
    have hs : ∀ u ∈ left.aliasName, Tree.Keeps l u → Tree.Suits l .store u :=
      fun u hu hkeeps => ht.suits (hname u hu) hkeeps .store
    refine (h.aliasTarget g hl hs).bind fun target htarget => ?_
    exact (h.valueIn ht "right").bind fun value hv =>
      .pure (g.node .typeAlias (htarget.append (.value hv .nil)))
  refine (yields_field "left").bind fun left hleft => ?_
  have hl := ht.field? hleft
  have htargets := Tree.targets_of_alias hk hleft
  split
  · rename_i htype
    rw [if_pos htype] at htargets
    refine yields_head.bind fun inner hi => ?_
    exact hrest inner (hl.named (List.mem_of_head? hi)) fun u hu => htargets ▸ (by simp [hi, hu])
  · rename_i htype
    rw [if_neg htype] at htargets
    exact hrest left hl fun u hu => htargets ▸ hu

theorem statementOf (ht : t.Keeps l) {form : StatementForm}
    (hform : (t.kind, form) ∈ StatementForm.kinds) :
    Yields (Q .statement) (S.statementOf t form) := by
  cases form with
  | expression => exact h.expressionStatement g ht
  | values kind =>
      exact (h.values fun u hu => ht.named hu).bind fun ns hns =>
        .pure (g.node (.values (StatementForm.values_mem hform)) (.allValues hns))
  | bare kind => exact .pure (g.node (.bare (StatementForm.bare_mem hform)) .nil)
  | delete =>
      have hk : t.kind = "delete_statement" := by simpa [StatementForm.kinds] using hform
      have htargets : ∀ u ∈ t.named, Yields _ (S.deleted u) := fun u hu =>
        h.deleted (ht.suits (Tree.mem_targets_of_delete hk hu) (ht.named hu) .del)
      exact (Yields.mapM_flatten htargets).bind fun targets hts =>
        .pure (g.node .delete (.all (.each hts)))
  | importNames =>
      exact (importedNames g).bind fun names hn =>
        .pure (g.node (.imports (by decide)) (.all (.each hn)))
  | importFrom => exact importFrom g
  | ifElse =>
      have hk : t.kind = "if_statement" := by simpa [StatementForm.kinds] using hform
      exact h.ifStatement g ht hk
  | forLoop =>
      have hk : t.kind = "for_statement" := by simpa [StatementForm.kinds] using hform
      exact h.forStatement g ht hk
  | whileLoop => exact h.whileStatement g ht
  | tryBlock => exact h.tryStatement g ht
  | withBlock => exact h.withStatement g ht
  | function => exact h.functionDefinition g (List.forall_mem_nil _) ht
  | classDef => exact h.classDefinition g (List.forall_mem_nil _) ht
  | decorated => exact h.decorated g ht
  | matchCases => exact h.matchStatement g ht
  | typeAlias =>
      have hk : t.kind = "type_alias_statement" := by simpa [StatementForm.kinds] using hform
      exact h.typeAlias g ht hk
  | legacy construct => exact .error

theorem statementNode (ht : t.Keeps l) : Yields (Q .statement) (S.statementNode t) := by
  unfold Scope.statementNode
  cases hform : StatementForm.ofKind? t.kind with
  | some form => exact h.statementOf g ht (mem_of_lookup_eq_some hform)
  | none => exact yields_unsupported

/-- A layer of the grammar leads one level further out. -/
theorem outer : S.outer.Conforms l Q where
  statement := h.statementNode g
  expression := h.expressionNode g
  pattern := h.patternNode g
  operands token ht := fun ns hns =>
    have hoperands := h.chainOperands token ht ns hns
    ⟨hoperands.several, fun n hn => g.deeper (hoperands.each n hn)⟩

end Conforms

theorem conforms_exhausted (source : Concrete.Source) (l : Limits) (P : Role → Node → Prop) :
    (exhausted source).Conforms l P where
  statement _ := .error
  expression _ _ := .error
  pattern _ := .error
  operands _ _ := .error

/-- What leads from one level to the next holds at every level. -/
theorem conforms_withLevels {l : Limits} {P : ℕ → Role → Node → Prop}
    (g : ∀ n, Layer l (P n) (P (n + 1))) (source : Concrete.Source) (n : ℕ) :
    (withLevels source n).Conforms l (P n) := by
  induction n with
  | zero => exact conforms_exhausted source l (P 0)
  | succ n ih => exact ih.outer (g n)

end Scope

end RenderGate
