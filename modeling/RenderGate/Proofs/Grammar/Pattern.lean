import RenderGate.Proofs.Grammar.Expression
import RenderGate.Proofs.Lowering.Pattern

/-!
# Patterns conform to the grammar

A dotted name is the only part of a pattern that nests without a pattern or an expression in
between, once for each of its parts.
-/

namespace RenderGate

open Concrete (Tree)
open TreeGrammar

namespace Scope.Conforms

variable {l : Limits} {P Q : Role → Node → Prop} {S : Scope Lowered} (h : S.Conforms l P)
  (g : Layer l P Q) {t : Tree}

include g in
theorem dottedAttributes {value : Node} {n : ℕ} (hv : Q (.dotted n) value) (parts : List Tree) :
    Yields (Q (.dotted (n + parts.length))) (S.dottedAttributes value parts) := by
  induction parts generalizing value n with
  | nil => exact .pure hv
  | cons part parts ih =>
      refine .bind_any fun attr => ?_
      have hattr : Q (.dotted (n + 1)) (.of (.attribute attr) [value, .ctx .load]) :=
        g.node .dottedAttribute (.one (.only hv) (.use g .load))
      have hrest := ih hattr
      rwa [Nat.add_right_comm] at hrest

include g in
theorem dottedValue (ht : t.Keeps l) (hk : t.kind = "dotted_name") :
    Yields (Q (.dotted l.run)) (S.dottedValue t) := by
  have hlen := ht.self.parts hk
  unfold Scope.dottedValue
  split
  · exact yields_unsupported
  · rename_i first parts hnamed
    rw [hnamed] at hlen
    obtain ⟨n, hn⟩ := Nat.exists_eq_add_of_le hlen
    have hname : Yields (Q (.dotted (n + 1))) (S.name .load first) :=
      .bind_any fun id => .pure (g.node .dottedName (.use g .load))
    rw [hn, List.length_cons, Nat.add_comm, ← Nat.add_assoc, Nat.add_right_comm]
    exact hname.bind fun value hv => dottedAttributes g hv parts

include h g

theorem classPart (ht : t.Keeps l) :
    Yields (Fits (inside P Q) [.dotted l.run, .pattern]) (S.classPart t) := by
  unfold Scope.classPart
  split
  · exact fun n hn => .head (dottedValue g ht ‹_› n hn)
  · exact fun n hn => .cons (.only (h.pattern ht n hn))

theorem mappingPart (ht : t.Keeps l) :
    Yields (Fits (inside P Q) [.leaf .matchStar, .dotted l.run, .expression .load, .pattern])
      (S.mappingPart t) := by
  unfold Scope.mappingPart
  split
  · exact .pure (.head (g.node (.leaf (by decide)) .nil))
  split
  · split
    · exact fun n hn => .cons (.head (dottedValue g ht ‹_› n hn))
    · exact fun n hn => .cons (.cons (.head (h.value ht n hn)))
  · exact fun n hn => .cons (.cons (.cons (.only (h.pattern ht n hn))))

omit g in
theorem patterns {ts : List Tree} (hts : ∀ t ∈ ts, t.Keeps l) :
    Yields (fun ns => ∀ n ∈ ns, P .pattern n) (ts.mapM S.pattern) :=
  .mapM fun t ht => h.pattern (hts t ht)

theorem patternOf (ht : t.Keeps l) {form : PatternForm}
    (hform : PatternForm.ofKind t.kind = form) : Yields (Q .pattern) (S.patternOf t form) := by
  have hparts : ∀ kind ∈ [Kind.matchSequence, .matchOr], Yields (Q .pattern)
      (do return .of kind (← t.named.mapM S.pattern)) := fun kind hk =>
    (h.patterns fun u hu => ht.named hu).bind fun ns hns =>
      .pure (g.node (.matchParts hk) (.all (.each hns)))
  cases form with
  | case =>
      simp only [Scope.patternOf]
      split
      · exact .pure (g.node .matchAs .none)
      · rename_i inner hinner
        exact fun n hn =>
          g.deeper (h.pattern (ht.named (hinner ▸ List.mem_cons_self)) n hn)
      · exact yields_unsupported
  | «alias» =>
      refine (yields_firstNamed ht).bind fun inner hi => (h.pattern hi).bind fun n hn => ?_
      exact .pure (g.node .matchAs (.some (.only hn)))
  | capture => exact .pure (g.node .matchAs .none)
  | dottedName =>
      have hvalue := dottedValue (S := S) g ht (PatternForm.eq_dotted_name hform)
      simp only [Scope.patternOf]
      split
      · exact .pure (g.node .matchAs .none)
      · exact hvalue.bind fun n hn => .pure (g.node .matchValue (.last (.head hn)))
  | singleton => exact .pure (g.node (.matchLeaf (by decide)) .nil)
  | complex =>
      exact .pure (g.node .matchValue (.last (.cons (.head (g.node (.leaf (by decide)) .nil)))))
  | splat => exact .pure (g.node (.matchLeaf (by decide)) .nil)
  | sequence => exact hparts _ (by decide)
  | union => exact hparts _ (by decide)
  | keyword =>
      simp only [Scope.patternOf]
      split
      · rename_i value hvalue
        exact fun n hn => g.deeper (h.pattern (ht.named (List.mem_of_getLast? hvalue)) n hn)
      · exact yields_unsupported
  | ofClass =>
      have hclass : ∀ u ∈ t.named, Yields _ (S.classPart u) := fun u hu =>
        h.classPart g (ht.named hu)
      exact (Yields.mapM hclass).bind fun ns hns => .pure (g.node .matchClass (.all hns))
  | mapping =>
      have hmapping : ∀ u ∈ t.named, Yields _ (S.mappingPart u) := fun u hu =>
        h.mappingPart g (ht.named hu)
      exact (Yields.mapM hmapping).bind fun ns hns => .pure (g.node .matchMapping (.all hns))
  | value =>
      refine (h.value ht).bind fun n hn => ?_
      exact .pure (g.node .matchValue (.last (.cons (.cons (.only hn)))))

theorem patternNode (ht : t.Keeps l) : Yields (Q .pattern) (S.patternNode t) :=
  h.patternOf g ht rfl

theorem casePattern {ts : List Tree} (hts : ∀ t ∈ ts, t.Keeps l) :
    Yields (Fits (inside P Q) [.pattern, .patterns]) (S.casePattern ts) := by
  have hseveral : Yields (Fits (inside P Q) [.pattern, .patterns])
      (do return .of .matchSequence (← ts.mapM S.pattern)) :=
    (h.patterns hts).bind fun ns hns =>
      .pure (.cons (.only (g.node .patterns (.all (.each hns)))))
  rcases ts with _ | ⟨t, _ | ⟨u, ts⟩⟩
  · exact hseveral
  · exact fun n hn => .head (h.pattern (hts t List.mem_cons_self) n hn)
  · exact hseveral

theorem matchCase (ht : t.Keeps l) : Yields (Q .matchCase) (S.matchCase t) := by
  have hpatterns : ∀ u ∈ t.named.filter fun (c : Tree) => c.kind == "case_pattern",
      Tree.Keeps l u := fun u hu => ht.named (List.mem_filter.mp hu).1
  refine (h.casePattern g hpatterns).bind fun pattern hp => ?_
  have hrest : ∀ guard : List Node, guard.length ≤ 1 → (∀ n ∈ guard, P (.expression .load) n) →
      Yields (Q .matchCase) (do
        let body ← S.suite t "consequence"
        return .of .matchCase (pattern :: guard ++ body)) := by
    intro guard hlen hguard
    refine (h.suite ht "consequence").bind fun body hb => .pure (g.node .matchCase ?_)
    exact .one hp (.maybe (.each hguard) hlen (.block hb))
  split
  · rename_i guard hguard
    refine (yields_firstNamed (ht.field? hguard)).bind fun inner hi => ?_
    exact (h.value hi).singleton.bind fun ns hns => hrest ns (Nat.le_of_eq hns.1) hns.2
  · exact hrest [] (Nat.zero_le 1) (List.forall_mem_nil _)

theorem matchStatement (ht : t.Keeps l) : Yields (Q .statement) (S.matchStatement t) := by
  refine (h.oneOrTuple g fun u hu => ht.fields hu).bind fun subject hs => ?_
  refine (yields_required ht "body").bind fun body hb => ?_
  have hcases : ∀ u ∈ body.named.filter fun (c : Tree) => c.kind == "case_clause",
      Yields _ (S.matchCase u) := fun u hu => h.matchCase g (hb.named (List.mem_filter.mp hu).1)
  exact (Yields.mapM hcases).bind fun cases hc =>
    .pure (g.node .matchStmt (.one hs (.all (.each hc))))

end Scope.Conforms

end RenderGate
