import RenderGate.Proofs.Grammar.Conformity
import RenderGate.Proofs.Lowering.FormattedString
import RenderGate.Proofs.Lowering.Pieces

/-!
# Expressions conform to the grammar

Every step of lowering an expression applies one rule of the grammar to what it is given from one
level further in.
-/

namespace RenderGate

open Concrete (Tree)
open TreeGrammar

theorem ExpressionForm.comprehension_mem {name : String} {kind : Kind}
    (h : (name, .comprehension kind) ∈ kinds) :
    kind ∈ [Kind.listComp, .setComp, .dictComp, .generatorExp] := by
  simp only [kinds, List.mem_cons, Prod.mk.injEq, reduceCtorEq, and_false, false_or,
    ExpressionForm.comprehension.injEq, List.not_mem_nil, or_false] at h
  rcases h with ⟨-, rfl⟩ | ⟨-, rfl⟩ | ⟨-, rfl⟩ | ⟨-, rfl⟩ <;> decide

theorem Operator.mem_of_lookup {tokens : List (String × Operator)} {token : String} {o : Operator}
    (h : tokens.lookup token = some o) : o ∈ tokens.map Prod.snd :=
  List.mem_map_of_mem (f := Prod.snd) (mem_of_lookup_eq_some h)

namespace Scope

namespace Conforms

variable {l : Limits} {P Q : Role → Node → Prop} {S : Scope Lowered} (h : S.Conforms l P)
  (g : Layer l P Q) {t : Tree} {c : ExprContext}
include h g

omit g in
theorem interpolated (ht : t.Keeps l) :
    Yields (P (.expression .load)) (S.interpolated t >>= S.expression .load) := by
  refine Yields.bind (P := (·.Keeps l)) ?_ fun _ hc => h.value hc
  unfold Scope.interpolated
  cases hc : t.field? "expression" with
  | some value => exact .pure (ht.field? hc)
  | none => exact yields_firstNamed ht

theorem interpolation {n : ℕ} (ht : t.Keeps l) (hf : t.FormatsWithin n) :
    Yields (Q (.piece n)) (S.interpolation t) := by
  induction n generalizing t with
  | zero =>
      rw [interpolation_eq]
      refine (h.interpolated ht).bind fun value hv => ?_
      unfold formatted
      rw [show t.field? "format_specifier" = none from hf]
      exact .pure (g.node .interpolation (.value hv .none))
  | succ n ih =>
      rw [interpolation_eq]
      refine (h.interpolated ht).bind fun value hv => ?_
      unfold formatted
      cases hspec : t.field? "format_specifier" with
      | none => exact .pure (g.node .interpolation (.value hv .none))
      | some spec =>
          have hpieces : ∀ piece ∈ formatPieces spec,
              Yields (fun o => ∀ m ∈ o, Q (.piece n) m) (S.formatPiece piece) := by
            intro piece hpiece
            have hrun := (ht.field? hspec).tokens (List.mem_filter.mp hpiece).1
            unfold formatPiece
            split
            · rename_i hi
              refine (ih hrun (hf spec hspec piece hpiece hi)).map fun m hm => ?_
              exact fun _ heq => Option.some.inj heq ▸ hm
            · exact .pure nofun
          refine (Yields.mapM hpieces).bind fun pieces hp => ?_
          have hformat : Q (.format (n + 1)) (.of .joinedStr (joinPieces pieces)) :=
            g.node .format (.all (.each (forall_mem_joinPieces (g.node .literal .nil) hp)))
          exact .pure (g.node .interpolation (.value hv (.some (.only hformat))))

theorem partContent (ht : t.Keeps l) :
    Yields (fun os => ∀ o ∈ os, ∀ m ∈ o, Q (.piece ((l.run - 1) / 2)) m) (S.partContent t) := by
  refine .bind_any fun formatted => .mapM fun piece hpiece => ?_
  have hrun := ht.tokens (List.mem_filter.mp hpiece).1
  split
  · rename_i hi
    rw [Bool.and_eq_true, beq_iff_eq] at hi
    refine (h.interpolation g hrun (hrun.self.formats hi.2)).map fun m hm => ?_
    exact fun _ heq => Option.some.inj heq ▸ hm
  · exact .pure nofun

theorem string (ht : t.Keeps l) : Yields (Q (.expression c)) (S.string t) := by
  have hparts : ∀ part ∈ stringParts t, Tree.Keeps l part := by
    unfold stringParts
    split
    · exact fun part hpart => ht.named hpart
    · exact List.forall_mem_singleton.mpr ht
  refine .bind_any fun formatted => ?_
  split
  · refine (Yields.mapM_flatten fun part hpart => h.partContent g (hparts part hpart)).bind
      fun contents hc => .pure (g.node .joinedStr (.all (.each ?_)))
    exact forall_mem_joinPieces (g.node .literal .nil) hc
  · exact .pure (g.node .constant .nil)

theorem binary (ht : t.Keeps l) : Yields (Q (.expression c)) (S.binary t) := by
  refine .bind_any fun token => ?_
  cases ho : Operator.binary? token.kind with
  | none => exact yields_unsupported
  | some operator =>
      refine (h.valueIn ht "left").bind fun left hl => ?_
      refine (h.valueIn ht "right").bind fun right hr => ?_
      exact .pure (g.node .binOp (.value hl (.operator g (Operator.mem_of_lookup ho)
        (.value hr .nil))))

theorem unary (ht : t.Keeps l) : Yields (Q (.expression c)) (S.unary t) := by
  refine .bind_any fun token => ?_
  cases ho : Operator.unary? token.kind with
  | none => exact yields_unsupported
  | some operator =>
      refine (h.valueIn ht "argument").bind fun argument ha => ?_
      exact .pure (g.node .unaryOp (.operator g (Operator.mem_of_lookup ho) (.value ha .nil)))

omit g in
theorem chainOperands (token : String) (ht : t.Keeps l) :
    Yields (Operands P) (S.chainOperands token t) := by
  have hrest : ∀ front : List Node, 1 ≤ front.length → (∀ n ∈ front, P (.expression .load) n) →
      Yields (Operands P) (do
        let right ← S.expressionIn .load t "right"
        return front ++ [right]) := by
    intro front hlen heach
    refine (h.valueIn ht "right").bind fun right hr => .pure ⟨?_, ?_⟩
    · rw [List.length_append]
      exact Nat.succ_le_succ hlen
    · exact List.forall_mem_append.mpr ⟨heach, List.forall_mem_singleton.mpr hr⟩
  refine (yields_required ht "left").bind fun left hleft => ?_
  split
  · refine (h.operands token hleft).bind fun front hf => ?_
    exact hrest front (Nat.le_of_succ_le hf.several) hf.each
  · refine (h.value hleft).singleton.bind fun front hf => ?_
    exact hrest front (Nat.le_of_eq hf.1.symm) hf.2

theorem boolean (ht : t.Keeps l) : Yields (Q (.expression c)) (S.boolean t) := by
  refine .bind_any fun token => ?_
  cases ho : Operator.boolean? token.kind with
  | none => exact yields_unsupported
  | some operator =>
      refine (h.chainOperands token.kind ht).bind fun ns hns => .pure (g.node .boolOp ?_)
      obtain ⟨hlen, heach⟩ := hns
      rcases ns with _ | ⟨n, _ | ⟨m, ns⟩⟩
      · exact absurd hlen (Nat.not_succ_le_zero 1)
      · exact absurd hlen (Nat.not_succ_le_self 1)
      · obtain ⟨hn, hm, hns⟩ := by simpa only [List.forall_mem_cons] using heach
        exact .operator g (Operator.mem_of_lookup ho) (.value hn (.value hm (.allValues hns)))

omit h g in
theorem comparisonBefore (tokens : List String) :
    Yields (fun ns => ∀ n ∈ ns, ∃ o ∈ Operator.comparisonTokens.map Prod.snd, n = .op o)
      (S.comparisonBefore t tokens) := by
  unfold Scope.comparisonBefore
  split
  · exact .pure fun n hn => absurd hn List.not_mem_nil
  · dsimp only
    split
    · exact .error
    · cases ho : Operator.comparison? (" ".intercalate tokens) with
      | none => exact yields_unsupported
      | some operator =>
          exact .pure (List.forall_mem_singleton.mpr ⟨_, Operator.mem_of_lookup ho, rfl⟩)

theorem comparisonParts {ts : List Tree} (hts : ∀ t ∈ ts, t.Keeps l)
    (pending : List String) : Yields (fun ns => ∀ n ∈ ns, Fits (inside P Q)
      [.operator (Operator.comparisonTokens.map Prod.snd), .expression .load] n)
      (S.comparisonParts t pending ts) := by
  induction ts generalizing pending with
  | nil => exact .pure fun n hn => absurd hn List.not_mem_nil
  | cons u us ih =>
      obtain ⟨hu, hus⟩ := List.forall_mem_cons.mp hts
      rw [Scope.comparisonParts]
      split
      · refine (comparisonBefore (t := t) pending).bind fun operators hos => ?_
        refine (h.value hu).bind fun operand ho => (ih hus []).bind fun rest hrest => ?_
        refine .pure (List.forall_mem_append.mpr ⟨fun n hn => ?_,
          List.forall_mem_cons.mpr ⟨.cons (.only ho), hrest⟩⟩)
        obtain ⟨o, ho, rfl⟩ := hos n hn
        exact .head (g.node (.operator ho) .nil)
      · exact ih hus _

theorem argument (ht : t.Keeps l) :
    Yields (Fits (inside P Q) [.keyword, .expression .load]) (S.argument t) := by
  unfold Scope.argument
  split
  · refine .bind_any fun name => .bind_any fun text => ?_
    refine (h.valueIn ht "value").bind fun value hv => ?_
    exact .pure (.head (g.node .keyword (.value hv .nil)))
  · refine h.bind_firstValue ht fun value hv => ?_
    exact .pure (.head (g.node .keyword (.value hv .nil)))
  · exact fun n hn => .cons (.only (h.value ht n hn))

theorem arguments (ht : t.Keeps l) :
    Yields (fun ns => ∀ n ∈ ns, Fits (inside P Q) [.keyword, .expression .load] n)
      (S.arguments t) :=
  .mapM fun _ hc => h.argument g (ht.named hc)

theorem call (ht : t.Keeps l) : Yields (Q (.expression c)) (S.call t) := by
  refine (h.valueIn ht "function").bind fun function hf => ?_
  refine (yields_required ht "arguments").bind fun list hlist => ?_
  split
  · refine (h.value hlist).singleton.bind fun arguments ha => ?_
    exact .pure (g.node .call (.value hf (.all fun n hn => .cons (.only (ha.2 n hn)))))
  · exact (h.arguments g hlist).bind fun arguments ha =>
      .pure (g.node .call (.value hf (.all ha)))

omit g in
/-- A key and a value. -/
theorem keyValue (ht : t.Keeps l) : Yields (fun ns => ∀ n ∈ ns, P (.expression .load) n)
    (do let key ← S.expressionIn .load t "key"
        let value ← S.expressionIn .load t "value"
        return [key, value]) := by
  refine (h.valueIn ht "key").bind fun key hk => ?_
  refine (h.valueIn ht "value").bind fun value hv => .pure ?_
  exact List.forall_mem_cons.mpr ⟨hk, List.forall_mem_singleton.mpr hv⟩

omit g in
theorem dictionaryEntry (ht : t.Keeps l) :
    Yields (fun ns => ∀ n ∈ ns, P (.expression .load) n) (S.dictionaryEntry t) := by
  unfold Scope.dictionaryEntry
  split
  · exact h.keyValue ht
  · refine h.bind_firstValue ht fun value hv => ?_
    exact .pure (List.forall_mem_singleton.mpr hv)
  · exact yields_unsupported

omit g in
theorem comprehensionBody (ht : t.Keeps l) :
    Yields (fun ns => ∀ n ∈ ns, P (.expression .load) n) (S.comprehensionBody t) := by
  unfold Scope.comprehensionBody
  split
  · exact h.keyValue ht
  · exact (h.value ht).bind fun value hv => .pure (List.forall_mem_singleton.mpr hv)

omit h g in
/-- A condition goes to the loop that is open. -/
theorem fills_clause_append {parts : List Node} {condition : Node}
    (hp : Fills (inside P Q) [Slot.target, Slot.grouped, Slot.values] parts)
    (hc : P (.expression .load) condition) :
    Fills (inside P Q) [Slot.target, Slot.grouped, Slot.values] (parts ++ [condition]) := by
  cases hp with
  | one ht hp =>
      cases hp with
      | one hi hp =>
          cases hp with
          | many hcs hp =>
              cases hp
              rw [List.append_nil]
              refine .one ht (.one hi (.all (List.forall_mem_append.mpr ⟨hcs, ?_⟩)))
              exact List.forall_mem_singleton.mpr (.only hc)

omit h in
theorem forall_mem_closed {current : Option (List Node)} (hcurrent : ∀ parts ∈ current,
      Fills (inside P Q) [Slot.target, Slot.grouped, Slot.values] parts) :
    ∀ n ∈ Scope.comprehensionClauses.closed current, Q .comprehension n := by
  cases current with
  | none => exact fun n hn => absurd hn List.not_mem_nil
  | some parts => exact List.forall_mem_singleton.mpr (g.node .clause (hcurrent parts rfl))

theorem comprehensionClauses {ts : List Tree} (hts : ∀ t ∈ ts, t.Keeps l)
    (current : Option (List Node)) (hcurrent : ∀ parts ∈ current,
      Fills (inside P Q) [Slot.target, Slot.grouped, Slot.values] parts) :
    Yields (fun ns => ∀ n ∈ ns, Q .comprehension n) (S.comprehensionClauses current ts) := by
  induction ts generalizing current with
  | nil => exact .pure (forall_mem_closed g hcurrent)
  | cons u us ih =>
      obtain ⟨hu, hus⟩ := List.forall_mem_cons.mp hts
      rw [Scope.comprehensionClauses]
      split
      · rename_i hk
        have hleft : ∀ v, Tree.field? u "left" = some v → v ∈ Tree.targets u :=
          fun v hv => Tree.mem_targets_of_left (by simp [hk]) hv
        refine (h.targetIn .store hu hleft).bind fun target ht => ?_
        refine (h.oneOrTuple g fun c hc => hu.fields hc).bind fun iterable hi => ?_
        have hloop : Fills (inside P Q) [Slot.target, Slot.grouped, Slot.values]
            [target, iterable] := .target ht (.one hi (.allValues (List.forall_mem_nil _)))
        refine (ih hus _ fun parts hp => Option.some.inj hp ▸ hloop).bind fun rest hrest => ?_
        exact .pure (List.forall_mem_append.mpr ⟨forall_mem_closed g hcurrent, hrest⟩)
      · refine h.bind_firstValue hu fun condition hc => ?_
        cases current with
        | none => exact yields_unsupported
        | some parts =>
            have hparts := fills_clause_append (hcurrent parts rfl) hc
            exact ih hus _ fun parts' hp => Option.some.inj hp ▸ hparts
      · exact yields_unsupported

theorem comprehension {kind : Kind}
    (hk : kind ∈ [Kind.listComp, .setComp, .dictComp, .generatorExp]) (ht : t.Keeps l) :
    Yields (Q (.expression c)) (S.comprehension kind t) := by
  refine (yields_required ht "body").bind fun body hb => ?_
  refine (h.comprehensionBody hb).bind fun values hv => ?_
  exact (h.comprehensionClauses g (fun c hc => ht.namedBeside hc) none nofun).bind
    fun clauses hc => .pure (g.node (.comprehension hk) (.values hv (.all (.each hc))))

theorem parameter (ht : t.Keeps l) :
    Yields (fun ns => ∀ n ∈ ns, Fits (inside P Q) [.parameter, .expression .load] n)
      (S.parameter t) := by
  have hplain : ∀ name, Fits (inside P Q) [.parameter, .expression .load] (.leaf (.arg name)) :=
    fun name => .head (g.node .parameter .none)
  have hhinted : ∀ name hint, P (.expression .load) hint →
      Fits (inside P Q) [.parameter, .expression .load] (.of (.arg name) [hint]) :=
    fun name hint hh => .head (g.node .parameter (.some (.only hh)))
  unfold Scope.parameter
  split
  case h_1 | h_2 | h_3 =>
    exact .bind_any fun name => .pure (List.forall_mem_singleton.mpr (hplain name))
  case h_4 =>
    refine (h.valueIn ht "type").bind fun hint hh => ?_
    refine .bind_any fun inner => .bind_any fun name => .pure ?_
    exact List.forall_mem_singleton.mpr (hhinted name hint hh)
  case h_5 =>
    refine .bind_any fun inner => .bind_any fun name => ?_
    refine (h.valueIn ht "value").bind fun value hv => .pure ?_
    exact List.forall_mem_cons.mpr
      ⟨hplain name, List.forall_mem_singleton.mpr (.cons (.only hv))⟩
  case h_6 =>
    refine (h.valueIn ht "type").bind fun hint hh => ?_
    refine .bind_any fun inner => .bind_any fun name => ?_
    refine (h.valueIn ht "value").bind fun value hv => .pure ?_
    exact List.forall_mem_cons.mpr
      ⟨hhinted name hint hh, List.forall_mem_singleton.mpr (.cons (.only hv))⟩
  case h_7 | h_8 => exact .pure (List.forall_mem_nil _)
  case h_9 => exact yields_unsupported

theorem parameters (ht : t.Keeps l) :
    Yields (Q .arguments) (S.parameters (t.field? "parameters")) := by
  cases hlist : t.field? "parameters" with
  | none => exact .pure (g.node .arguments (.all (List.forall_mem_nil _)))
  | some list =>
      have hparameters : ∀ u ∈ list.named, Yields _ (S.parameter u) :=
        fun u hu => h.parameter g ((ht.field? hlist).named hu)
      exact (Yields.mapM_flatten hparameters).bind fun entries he =>
        .pure (g.node .arguments (.all he))

theorem genericType (ht : t.Keeps l) :
    Yields (Q (.expression c)) (S.genericType c t) := by
  have harguments : ∀ u ∈ typeArguments t, Tree.Keeps l u := by
    intro u hu
    obtain ⟨list, hlist, hu⟩ := List.mem_flatMap.mp hu
    exact (ht.named (List.mem_filter.mp hlist).1).named hu
  unfold Scope.genericType
  split
  · exact yields_unsupported
  · refine h.bind_firstValue ht fun value hv => ?_
    refine (h.oneOrTuple g harguments).bind fun index hx => ?_
    exact .pure (g.node .subscript (.value hv (.one hx (.use g c))))

theorem yield (ht : t.Keeps l) : Yields (Q (.expression c)) (S.yield t) := by
  unfold Scope.yield
  split
  · refine h.bind_firstValue ht fun value hv => ?_
    exact .pure (g.node (.operand (by decide)) (.value hv .nil))
  · split
    · exact .pure (g.node .yield .none)
    · rename_i value rest hnamed
      refine (h.value (ht.named (hnamed ▸ List.mem_cons_self))).bind fun value hv => ?_
      exact .pure (g.node .yield (.some (.only hv)))

theorem unionType (ht : t.Keeps l) :
    Yields (Q (.expression c)) (S.expressionOf c t .unionType) := by
  simp only [Scope.expressionOf]
  split
  · rename_i left right hpair
    refine (h.value (ht.named (hpair ▸ List.mem_cons_self))).bind fun left hl => ?_
    refine (h.value (ht.named (by simp [hpair]))).bind fun right hr => ?_
    exact .pure (g.node .binOp (.value hl (.operator g (by decide) (.value hr .nil))))
  · exact yields_unsupported

theorem memberType (ht : t.Keeps l) :
    Yields (Q (.expression c)) (S.expressionOf c t .memberType) := by
  simp only [Scope.expressionOf]
  split
  · rename_i value attr hpair
    refine .bind_any fun attr => ?_
    refine (h.value (ht.named (hpair ▸ List.mem_cons_self))).bind fun value hv => ?_
    exact .pure (g.node .attribute (.value hv (.use g c)))
  · exact yields_unsupported

/-- What a type splat holds is read, whatever becomes of the splat. -/
theorem splatType (ht : t.Keeps l) (hload : l.plain → c = .load) :
    Yields (Q (.expression c)) (S.expressionOf c t .splatType) := by
  simp only [Scope.expressionOf]
  split
  · exact yields_unsupported
  · refine h.bind_firstValue ht fun value hv => ?_
    exact .pure (g.node (.typeStarred hload) (.value hv (.use g c)))

theorem expressionOf (c : ExprContext) (hs : t.Suits l c) {form : ExpressionForm}
    (hform : ExpressionForm.ofKind? t.kind = some form) :
    Yields (Q (.expression c)) (S.expressionOf c t form) := by
  have ht := hs.keeps
  have hmem := mem_of_lookup_eq_some hform
  have hvalues : Yields (fun ns => ∀ n ∈ ns, P (.expression .load) n)
      (S.expressions .load t.named) := h.values fun u hu => ht.named hu
  cases form with
  | name => exact .bind_any fun id => .pure (g.node .name (.use g c))
  | «attribute» =>
      refine .bind_any fun inner => .bind_any fun attr => ?_
      refine (h.valueIn ht "object").bind fun object ho => ?_
      exact .pure (g.node .attribute (.value ho (.use g c)))
  | subscript =>
      refine (h.valueIn ht "value").bind fun value hv => ?_
      refine (h.oneOrTuple g fun u hu => ht.fields hu).bind fun index hi => ?_
      exact .pure (g.node .subscript (.value hv (.one hi (.use g c))))
  | slice =>
      exact hvalues.bind fun ns hns =>
        .pure (g.node (.parts (by decide)) (.allValues hns))
  | call => exact h.call g ht
  | binary => exact h.binary g ht
  | unary => exact h.unary g ht
  | negation =>
      refine (h.valueIn ht "argument").bind fun argument ha => ?_
      exact .pure (g.node .unaryOp (.operator g (by decide) (.value ha .nil)))
  | boolean => exact h.boolean g ht
  | comparison =>
      exact (h.comparisonParts g (fun u hu => ht.tokens hu) []).bind fun ns hns =>
        .pure (g.node .compare (.all hns))
  | constant => exact .pure (g.node .constant .nil)
  | string => exact h.string g ht
  | list | tuple =>
      have helements : ∀ u ∈ t.named, Tree.Suits l c u := fun u hu =>
        hs.element (by simpa [Tree.elements, hform] using hu) (ht.named hu)
      refine (h.expressions c helements).bind fun ns hns => .pure (g.node (.display (by decide)) ?_)
      exact .many (.each hns) (.use g c)
  | set =>
      exact hvalues.bind fun ns hns =>
        .pure (g.node (.parts (by decide)) (.allValues hns))
  | dictionary =>
      have hentries : ∀ u ∈ t.named, Yields _ (S.dictionaryEntry u) :=
        fun u hu => h.dictionaryEntry (ht.named hu)
      exact (Yields.mapM_flatten hentries).bind fun entries he =>
        .pure (g.node (.parts (by decide)) (.allValues he))
  | comprehension kind => exact h.comprehension g (ExpressionForm.comprehension_mem hmem) ht
  | lambda =>
      refine (h.parameters g ht).bind fun arguments ha => ?_
      refine (h.valueIn ht "body").bind fun body hb => ?_
      exact .pure (g.node .lambda (.one (.only ha) (.value hb .nil)))
  | conditional =>
      exact hvalues.bind fun ns hns =>
        .pure (g.node (.parts (by decide)) (.allValues hns))
  | wrapper =>
      refine yields_head.bind fun inner hi n hn => ?_
      have hinner := hs.element (by simp [Tree.elements, hform, hi])
        (ht.named (List.mem_of_head? hi))
      exact g.deeper (h.expression c hinner n hn)
  | genericType => exact h.genericType g ht
  | unionType => exact h.unionType g ht
  | memberType => exact h.memberType g ht
  | splatType =>
      have hkind : t.kind = "splat_type" := by simpa [ExpressionForm.kinds] using hmem
      exact h.splatType g ht fun hplain =>
        by_contra fun hc => (hs.typeFree hplain hc).kind_ne hkind
  | await =>
      refine h.bind_firstValue ht fun value hv => ?_
      exact .pure (g.node (.operand (by decide)) (.value hv .nil))
  | yield => exact h.yield g ht
  | assignment =>
      have hkind : t.kind = "named_expression" := by simpa [ExpressionForm.kinds] using hmem
      have hname : ∀ u, t.field? "name" = some u → u ∈ t.targets :=
        fun u hu => Tree.mem_targets_of_name hkind hu
      refine (h.targetIn .store ht hname).bind fun target htarget => ?_
      refine (h.valueIn ht "value").bind fun value hv => ?_
      exact .pure (g.node .namedExpr (.target htarget (.value hv .nil)))
  | splat =>
      refine yields_head.bind fun inner hi => ?_
      have hinner := hs.element (by simp [Tree.elements, hform, hi])
        (ht.named (List.mem_of_head? hi))
      refine (h.expression c hinner).bind fun value hv => ?_
      exact .pure (g.node .starred (.one (.only hv) (.use g c)))

theorem expressionNode (c : ExprContext) (hs : t.Suits l c) :
    Yields (Q (.expression c)) (S.expressionNode c t) := by
  unfold Scope.expressionNode
  cases hform : ExpressionForm.ofKind? t.kind with
  | some form => exact h.expressionOf g c hs hform
  | none => exact yields_unsupported

end Conforms

end Scope

end RenderGate
