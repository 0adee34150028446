import RenderGate.Proofs.Grammar.Statement
import RenderGate.Proofs.Lowering.Layout

/-!
# The shape of lowered trees

Modules, contexts, operators, parameter lists and the loops of comprehensions stand in certain
places of a tree only; every other kind is free.  `Kind.Admits` says for each kind which children a
node may have, and names the places of the kinds that are not free.  Every tree that lowering gives
is well formed in this sense, for each rule of the grammar asks for children that its kind admits.
-/

namespace RenderGate

open Concrete (Source Tree)
open TreeGrammar

namespace Operator

def arithmetic : List Operator :=
  [.add, .sub, .mult, .matMult, .div, .mod, .pow, .lShift, .rShift, .bitOr, .bitXor, .bitAnd,
    .floorDiv]

def comparisons : List Operator :=
  [.eq, .notEq, .lt, .ltE, .gt, .gtE, .is, .isNot, .isIn, .notIn]

end Operator

namespace Kind

/-- A kind that is not tied to certain places. -/
def isFree : Kind → Bool
  | .module | .context _ | .op _ | .arguments | .comprehension => false
  | _ => true

def Admits : Kind → List Kind → Prop
  | .name _, ks => ∃ c, ks = [.context c]
  | .attribute _, ks | .starred, ks => ∃ v c, v.isFree ∧ ks = [v, .context c]
  | .subscript, ks => ∃ v i c, v.isFree ∧ i.isFree ∧ ks = [v, i, .context c]
  | .list, ks | .tuple, ks => ∃ es c, (∀ e ∈ es, e.isFree) ∧ ks = es ++ [.context c]
  | .binOp, ks | .augAssign, ks =>
      ∃ l o r, l.isFree ∧ r.isFree ∧ o ∈ Operator.arithmetic ∧ ks = [l, .op o, r]
  | .unaryOp, ks =>
      ∃ o v, o ∈ [Operator.uAdd, .uSub, .invert, .not] ∧ v.isFree ∧ ks = [.op o, v]
  | .boolOp, ks => ∃ o vs, o ∈ [Operator.and, .or] ∧ 2 ≤ vs.length ∧ (∀ v ∈ vs, v.isFree) ∧
      ks = .op o :: vs
  | .compare, ks => ∀ k ∈ ks, k.isFree ∨ ∃ o ∈ Operator.comparisons, k = .op o
  | .functionDef _, ks | .asyncFunctionDef _, ks => ∃ before after,
      (∀ k ∈ before ++ after, k.isFree) ∧ ks = before ++ .arguments :: after
  | .lambda, ks => ∃ v, v.isFree ∧ ks = [.arguments, v]
  | .joinedStr, ks => ∀ k ∈ ks, k = .constant ∨ k = .formattedValue
  | .formattedValue, ks => ∃ v, v.isFree ∧ (ks = [v] ∨ ks = [v, .joinedStr])
  | .comprehension, ks => 2 ≤ ks.length ∧ ∀ k ∈ ks, k.isFree
  | .listComp, ks | .setComp, ks | .dictComp, ks | .generatorExp, ks =>
      ∀ k ∈ ks, k.isFree ∨ k = .comprehension
  | _, ks => ∀ k ∈ ks, k.isFree

theorem module_not_mem_of_admits {kind : Kind} {ks : List Kind} (h : kind.Admits ks) :
    .module ∉ ks := by
  intro hm
  revert h
  fun_cases Kind.Admits kind ks <;> grind [isFree]

end Kind

/-- All nodes of a tree have children that their kinds admit. -/
def Node.Admitted (n : Node) : Prop :=
  ∀ m ∈ n.subtrees, (Node.kind m).Admits ((Rose.children m).map Node.kind)

/-- A module without modules in it, all of whose nodes have children that their kinds admit. -/
structure Node.WellFormed (n : Node) : Prop where
  root : n.kind = .module
  inner : ∀ m ∈ n.subtrees, .module ∉ (Rose.children m).map Node.kind
  admitted : n.Admitted

theorem Node.WellFormed.of {n : Node} (hroot : n.kind = .module) (h : n.Admitted) :
    n.WellFormed where
  root := hroot
  inner m hm := Kind.module_not_mem_of_admits (h m hm)
  admitted := h

namespace TreeGrammar

/-- The kinds of the nodes in a role, as far as they matter to the node above. -/
def Role.Heads : Role → Kind → Prop
  | .context c, k => k = .context c
  | .operator allowed, k => ∃ o ∈ allowed, k = .op o
  | .arguments, k => k = .arguments
  | .comprehension, k => k = .comprehension
  | .piece _, k => k = .constant ∨ k = .formattedValue
  | .format _, k => k = .joinedStr
  | _, k => k.isFree

def Role.isFree : Role → Bool
  | .context _ | .operator _ | .arguments | .comprehension => false
  | _ => true

theorem Role.Heads.isFree {r : Role} {k : Kind} (h : r.Heads k) (hr : r.isFree) : k.isFree := by
  cases r <;> first | exact h | exact absurd hr Bool.false_ne_true | skip
  · rcases h with rfl | rfl <;> rfl
  · rw [show k = .joinedStr from h]
    rfl

/-- A node as far as its role matters to the node above. -/
def Headed (r : Role) (n : Node) : Prop := r.Heads n.kind

theorem Rule.heads {l : Limits} {r : Role} {kind : Kind} {slots : List Slot}
    (h : Rule l r kind slots) : r.Heads kind := by
  cases h with
  | function h | values h | bare h | forLoop h | withBlock h | tryBlock h | imports h | display h
  | parts h | comprehension h | operand h | matchLeaf h | matchParts h | typeVars h | leaf h =>
      exact (List.all_eq_true (p := Kind.isFree)).mp rfl kind h
  | operator h => exact ⟨_, h, rfl⟩
  | literal => exact .inl rfl
  | interpolation => exact .inr rfl
  | _ => rfl

theorem Fits.isFree {roles : List Role} {n : Node} (h : Fits Headed roles n)
    (hroles : roles.all Role.isFree) : n.kind.isFree := by
  obtain ⟨r, hr, hn⟩ := h
  exact Role.Heads.isFree hn (List.all_eq_true.mp hroles r hr)

namespace Fills

variable {roles : List Role} {slots : List Slot} {ns : List Node}

theorem isFree (h : Fills Headed slots ns)
    (hslots : slots.all fun slot => slot.roles.all Role.isFree) :
    ∀ k ∈ ns.map Node.kind, k.isFree := by
  refine List.forall_mem_map.mpr fun n hn => ?_
  obtain ⟨slot, hslot, hfits⟩ := h.forall_fits n hn
  exact hfits.isFree (List.all_eq_true.mp hslots slot hslot)

theorem heads_of_many (h : Fills Headed [.many roles] ns) :
    ∀ k ∈ ns.map Node.kind, ∃ r ∈ roles, r.Heads k := by
  refine List.forall_mem_map.mpr fun n hn => ?_
  obtain ⟨slot, hslot, hfits⟩ := h.forall_fits n hn
  obtain rfl := List.mem_singleton.mp hslot
  exact hfits

theorem heads_of_each {r : Role} (h : Fills Headed [.many [r]] ns) :
    ∀ k ∈ ns.map Node.kind, r.Heads k := by
  intro k hk
  obtain ⟨s, hs, hhead⟩ := h.heads_of_many k hk
  obtain rfl := List.mem_singleton.mp hs
  exact hhead

theorem kinds_free (h : Fills Headed (.one roles :: slots) ns)
    (hroles : roles.all Role.isFree) :
    ∃ k ms, k.isFree ∧ Fills Headed slots ms ∧ ns.map Node.kind = k :: ms.map Node.kind := by
  obtain ⟨n, ms, rfl, hn, hms⟩ := h.one_inv
  exact ⟨n.kind, ms, hn.isFree hroles, hms, rfl⟩

theorem kinds_single {r : Role} (h : Fills Headed (.one [r] :: slots) ns) :
    ∃ k ms, r.Heads k ∧ Fills Headed slots ms ∧ ns.map Node.kind = k :: ms.map Node.kind := by
  obtain ⟨n, ms, rfl, ⟨s, hs, hn⟩, hms⟩ := h.one_inv
  obtain rfl := List.mem_singleton.mp hs
  exact ⟨n.kind, ms, hn, hms, rfl⟩

theorem kinds_nil (h : Fills Headed [] ns) : ns.map Node.kind = [] := by
  cases h
  rfl

theorem kinds_use {c : ExprContext} (h : Fills Headed [Slot.use c] ns) :
    ns.map Node.kind = [.context c] := by
  obtain ⟨k, ms, hk, hms, hkinds⟩ := h.kinds_single
  rw [hkinds, hms.kinds_nil, show k = .context c from hk]

theorem kinds_operator {tokens : List (String × Operator)}
    (h : Fills Headed (Slot.operator tokens :: slots) ns) :
    ∃ o ∈ tokens.map Prod.snd, ∃ ms, Fills Headed slots ms ∧
      ns.map Node.kind = .op o :: ms.map Node.kind := by
  obtain ⟨k, ms, ⟨o, ho, rfl⟩, hms, hkinds⟩ := h.kinds_single
  exact ⟨o, ho, ms, hms, hkinds⟩

theorem kinds_display {c : ExprContext} (h : Fills Headed [.many roles, Slot.use c] ns)
    (hroles : roles.all Role.isFree) :
    ∃ es c, (∀ e ∈ es, Kind.isFree e) ∧ ns.map Node.kind = es ++ [.context c] := by
  obtain ⟨ms, ms', rfl, hms, hms'⟩ := h.append_inv [.many roles]
  refine ⟨ms.map Node.kind, c, hms.isFree ?_, by rw [List.map_append, hms'.kinds_use]⟩
  rw [List.all_cons, Slot.roles, hroles]
  rfl

theorem kinds_arguments (h : Fills Headed (.one [.arguments] :: slots) ns) :
    ∃ ms, Fills Headed slots ms ∧ ns.map Node.kind = .arguments :: ms.map Node.kind := by
  obtain ⟨k, ms, hk, hms, hkinds⟩ := h.kinds_single
  exact ⟨ms, hms, by rw [hkinds, show k = .arguments from hk]⟩

end Fills

theorem Rule.admits {l : Limits} {r : Role} {kind : Kind} {slots : List Slot} {ns : List Node}
    (h : Rule l r kind slots) (hns : Fills Headed slots ns) :
    kind.Admits (ns.map Node.kind) := by
  cases h with
  | values h | bare h | forLoop h | withBlock h | tryBlock h | imports h | parts h | operand h
  | matchLeaf h | matchParts h | typeVars h | leaf h =>
      -- None of the slots asks for a tied kind, which is all that these kinds need.
      have hfree := hns.isFree rfl
      simp only [List.mem_cons, List.not_mem_nil, or_false] at h
      rcases h with rfl | rfl | rfl | rfl | rfl <;> exact hfree
  | name | dottedName => exact ⟨_, hns.kinds_use⟩
  | «attribute» | starred | typeStarred _ | dottedAttribute =>
      obtain ⟨v, ms, hv, hms, hkinds⟩ := hns.kinds_free rfl
      exact ⟨v, _, hv, by rw [hkinds, hms.kinds_use]⟩
  | subscript =>
      obtain ⟨v, ms, hv, hms, hkinds⟩ := hns.kinds_free rfl
      obtain ⟨i, ms, hi, hms, hindex⟩ := hms.kinds_free rfl
      exact ⟨v, i, _, hv, hi, by rw [hkinds, hindex, hms.kinds_use]⟩
  | display h =>
      have hadmits := hns.kinds_display rfl
      simp only [List.mem_cons, List.not_mem_nil, or_false] at h
      rcases h with rfl | rfl <;> exact hadmits
  | group => exact hns.kinds_display rfl
  | binOp | augAssign =>
      obtain ⟨l, ms, hl, hms, hkinds⟩ := hns.kinds_free rfl
      obtain ⟨o, ho, ms, hms, hoperator⟩ := hms.kinds_operator
      obtain ⟨r, ms, hr, hms, hright⟩ := hms.kinds_free rfl
      exact ⟨l, o, r, hl, hr, ho, by rw [hkinds, hoperator, hright, hms.kinds_nil]⟩
  | unaryOp =>
      obtain ⟨o, ho, ms, hms, hkinds⟩ := hns.kinds_operator
      obtain ⟨v, ms, hv, hms, hoperand⟩ := hms.kinds_free rfl
      exact ⟨o, v, ho, hv, by rw [hkinds, hoperand, hms.kinds_nil]⟩
  | boolOp =>
      obtain ⟨o, ho, ms, hms, hkinds⟩ := hns.kinds_operator
      refine ⟨o, ms.map Node.kind, ho, ?_, hms.isFree rfl, hkinds⟩
      obtain ⟨v, ms, hv, hms, hfirst⟩ := hms.kinds_free rfl
      obtain ⟨w, ms, hw, hms, hsecond⟩ := hms.kinds_free rfl
      rw [hfirst, hsecond]
      simp
  | compare =>
      intro k hk
      obtain ⟨r, hr, hhead⟩ := hns.heads_of_many k hk
      simp only [List.mem_cons, List.not_mem_nil, or_false] at hr
      rcases hr with rfl | rfl
      · exact .inr hhead
      · exact .inl hhead
  | function h =>
      obtain ⟨ms, ms', rfl, hms, hms'⟩ := hns.append_inv [Slot.values, .many _]
      obtain ⟨ms', hafter, hkinds⟩ := hms'.kinds_arguments
      have hadmits : ∃ before after, (∀ k ∈ before ++ after, Kind.isFree k) ∧
          (ms ++ _).map Node.kind = before ++ .arguments :: after :=
        ⟨_, _, List.forall_mem_append.mpr ⟨hms.isFree rfl, hafter.isFree rfl⟩,
          by rw [List.map_append, hkinds]⟩
      simp only [List.mem_cons, List.not_mem_nil, or_false] at h
      rcases h with rfl | rfl <;> exact hadmits
  | lambda =>
      obtain ⟨ms, hms, hkinds⟩ := hns.kinds_arguments
      obtain ⟨v, ms, hv, hms, hbody⟩ := hms.kinds_free rfl
      exact ⟨v, hv, by rw [hkinds, hbody, hms.kinds_nil]⟩
  | joinedStr | format => exact hns.heads_of_each
  | interpolation =>
      obtain ⟨v, ms, hv, hms, hkinds⟩ := hns.kinds_free rfl
      refine ⟨v, hv, ?_⟩
      rcases hms.maybe_inv with rfl | ⟨n, rfl, r, hr, hn⟩
      · exact .inl hkinds
      · obtain rfl := List.mem_singleton.mp hr
        exact .inr (hkinds.trans (congrArg (fun k => [v, k]) hn))
  | clause =>
      refine ⟨?_, hns.isFree rfl⟩
      obtain ⟨v, ms, hv, hms, htarget⟩ := hns.kinds_free rfl
      obtain ⟨w, ms, hw, hms, hsource⟩ := hms.kinds_free rfl
      rw [htarget, hsource]
      simp
  | comprehension h =>
      obtain ⟨ms, ms', rfl, hms, hms'⟩ := hns.append_inv [Slot.values]
      have hadmits : ∀ k ∈ (ms ++ ms').map Node.kind, k.isFree ∨ k = .comprehension := by
        rw [List.map_append]
        exact List.forall_mem_append.mpr ⟨fun k hk => .inl (hms.isFree rfl k hk),
          fun k hk => .inr (hms'.heads_of_each k hk)⟩
      simp only [List.mem_cons, List.not_mem_nil, or_false] at h
      rcases h with rfl | rfl | rfl | rfl <;> exact hadmits
  | _ => exact hns.isFree rfl

/-- A node in its role, all of whose nodes have children that their kinds admit. -/
def Shaped (r : Role) (n : Node) : Prop := Headed r n ∧ n.Admitted

theorem inside_self (P : Role → Node → Prop) : inside P P = P := by
  funext r
  cases r <;> rfl

theorem layer_shaped (l : Limits) : Layer l Shaped Shaped where
  deeper h := h
  node {r kind slots children} hrule hfills := by
    rw [inside_self] at hfills
    have hheaded : Fills Headed slots children := hfills.imp fun _ _ h => h.1
    refine ⟨hrule.heads, Rose.forall_mem_subtrees.mpr ⟨hrule.admits hheaded, fun c hc => ?_⟩⟩
    obtain ⟨slot, -, s, -, hs⟩ := hfills.forall_fits c hc
    exact hs.2

end TreeGrammar

/-- Every tree that lowering gives is well formed, whatever the concrete tree. -/
theorem wellFormed_of_lowerModule {source : Source} {root : Tree} {node : Node}
    (h : lowerModule source root = .ok node) : node.WellFormed := by
  -- Shapes do not depend on the levels, nor on how long the runs are, so any bound will do.
  have hconforms := Scope.conforms_withLevels
    (fun _ => layer_shaped ⟨2 * root.size + 1, False⟩) source nestingLimit
  have hmodule : Yields Node.WellFormed (lowerModule source root) := by
    rw [lowerModule_eq]
    refine (hconforms.statements root.runsWithin_size.keeps).bind fun statements hs =>
      .pure (.of rfl ?_)
    refine Rose.forall_mem_subtrees.mpr ⟨?_, fun c hc => (hs c hc).2⟩
    exact List.forall_mem_map.mpr fun c hc => (hs c hc).1
  exact hmodule node h

theorem wellFormed_of_lowerModule_name :
    Node.WellFormed (.of .module [.of .expr [.of (.name "x") [.ctx .load]]]) := by
  have hlowered : lowerModule (Source.ofText "x") (Concrete.nameTree 0 1 none) =
      .ok (.of .module [.of .expr [.of (.name "x") [.ctx .load]]]) := by decide +kernel
  exact wellFormed_of_lowerModule hlowered

end RenderGate
