import RenderGate.Proofs.Grammar.Shape

/-!
# The contexts of lowered trees

Names, attributes, subscripts and displays say in which context they stand: whether they are read,
assigned to or deleted.  Which of these holds is decided by the place of a node in its tree.  Some
kinds assign to or delete children in certain places, lists, tuples and stars hand their own context
on, and everything else reads its children.
-/

namespace RenderGate

open Concrete (Source Tree)
open TreeGrammar

/-- The context of the child in place `i` of `n`, below a node of a kind that stands in context `c`
itself. -/
def Kind.childContext : Kind → (c : ExprContext) → (i n : ℕ) → ExprContext
  | .assign, _, i, n => if i + 1 < n then .store else .load
  | .annAssign, _, i, _ | .augAssign, _, i, _ | .forLoop, _, i, _ | .asyncFor, _, i, _
  | .typeAlias, _, i, _ | .namedExpr, _, i, _ | .comprehension, _, i, _ =>
      if i = 0 then .store else .load
  | .withItem, _, i, _ => if i = 1 then .store else .load
  | .delete, _, _, _ => .del
  | .list, c, _, _ | .tuple, c, _, _ | .starred, c, _, _ => c
  | _, _, _, _ => .load

/-- The kinds that assign to their first child. -/
def Kind.firstTargets : List Kind :=
  [.annAssign, .augAssign, .forLoop, .asyncFor, .typeAlias, .namedExpr, .comprehension]

/-- A child is read, it is assigned to or deleted by its parent, or it shares the context of its
parent. -/
theorem Kind.childContext_cases (kind : Kind) (c : ExprContext) (i n : ℕ) :
    kind.childContext c i n = .load ∨
      (kind = .assign ∧ i + 1 < n ∧ kind.childContext c i n = .store) ∨
      (kind ∈ firstTargets ∧ i = 0 ∧ kind.childContext c i n = .store) ∨
      (kind = .withItem ∧ i = 1 ∧ kind.childContext c i n = .store) ∨
      (kind = .delete ∧ kind.childContext c i n = .del) ∨
      (kind ∈ [Kind.list, .tuple, .starred] ∧ kind.childContext c i n = c) := by
  fun_cases childContext kind c i n <;> simp_all [firstTargets]

/-- A kind that does not read all of its children. -/
def Kind.isBinder : Kind → Bool
  | .assign | .annAssign | .augAssign | .forLoop | .asyncFor | .typeAlias | .namedExpr
  | .comprehension | .withItem | .delete | .list | .tuple | .starred => true
  | _ => false

theorem Kind.childContext_of_not_binder {kind : Kind} (h : kind.isBinder = false) (c : ExprContext)
    (i n : ℕ) : kind.childContext c i n = .load := by
  fun_cases childContext kind c i n <;> simp_all [isBinder]

namespace Node

/-- The node at an address: the place of the node in its parent, then that of the parent, and so on
up to the root. -/
def at? (root : Node) : List ℕ → Option Node
  | [] => some root
  | i :: address => (root.at? address).bind fun n => n.children[i]?

/-- The node at an address is a target that is assigned to or deleted. -/
inductive Targeted (root : Node) : ExprContext → List ℕ → Prop
  | assign {address n i} (hn : root.at? address = some n) (hk : n.kind = .assign)
      (hi : i + 1 < n.children.length) : Targeted root .store (i :: address)
  | first {address n} (hn : root.at? address = some n)
      (hk : n.kind ∈ Kind.firstTargets) : Targeted root .store (0 :: address)
  | item {address n} (hn : root.at? address = some n) (hk : n.kind = .withItem) :
      Targeted root .store (1 :: address)
  | delete {address n i} (hn : root.at? address = some n) (hk : n.kind = .delete) :
      Targeted root .del (i :: address)
  | element {address n i c} (hn : root.at? address = some n)
      (hk : n.kind ∈ [Kind.list, .tuple, .starred]) (h : Targeted root c address) :
      Targeted root c (i :: address)

def contextAt (root : Node) : List ℕ → ExprContext
  | [] => .load
  | i :: address =>
      match root.at? address with
      | some n => n.kind.childContext (root.contextAt address) i n.children.length
      | none => .load

variable {root : Node} {address : List ℕ} {c : ExprContext}

theorem contextAt_cons {n : Node} (hn : root.at? address = some n) (i : ℕ) :
    root.contextAt (i :: address) =
      n.kind.childContext (root.contextAt address) i n.children.length := by
  rw [contextAt, hn]

theorem Targeted.contextAt_eq (h : root.Targeted c address) : root.contextAt address = c := by
  induction h with
  | assign hn hk hi => rw [contextAt_cons hn, hk, Kind.childContext, if_pos hi]
  | first hn hk =>
      rw [contextAt_cons hn]
      simp only [Kind.firstTargets, List.mem_cons, List.not_mem_nil, or_false] at hk
      rcases hk with hk | hk | hk | hk | hk | hk | hk <;> rw [hk] <;> rfl
  | item hn hk => rw [contextAt_cons hn, hk]; rfl
  | delete hn hk => rw [contextAt_cons hn, hk]; rfl
  | element hn hk _ ih =>
      rw [contextAt_cons hn]
      simp only [List.mem_cons, List.not_mem_nil, or_false] at hk
      rcases hk with hk | hk | hk <;> rw [hk] <;> exact ih

/-- What is not read is a target. -/
theorem targeted_of_contextAt (h : root.contextAt address = c) (hc : c ≠ .load) :
    root.Targeted c address := by
  induction address with
  | nil => exact absurd h.symm hc
  | cons i address ih =>
      cases hn : root.at? address with
      | none =>
          rw [contextAt, hn] at h
          exact absurd h.symm hc
      | some n =>
          rw [contextAt_cons hn] at h
          obtain hread | ⟨hk, hi, hstore⟩ | ⟨hk, rfl, hstore⟩ | ⟨hk, rfl, hstore⟩ | ⟨hk, hdel⟩ |
              ⟨hk, hshared⟩ :=
            n.kind.childContext_cases (root.contextAt address) i n.children.length
          · exact absurd (h.symm.trans hread) hc
          · exact h.symm.trans hstore ▸ .assign hn hk hi
          · exact h.symm.trans hstore ▸ .first hn hk
          · exact h.symm.trans hstore ▸ .item hn hk
          · exact h.symm.trans hdel ▸ .delete hn hk
          · exact .element hn hk (ih (hshared.symm.trans h))

/-- Every node of a tree says in which context it stands, if the root stands in a context. -/
inductive Placed : ExprContext → Node → Prop
  | node {c n} (own : ∀ d, ctx d ∈ n.children → d = c)
      (parts : ∀ i m, n.children[i]? = some m →
        Placed (n.kind.childContext c i n.children.length) m) : Placed c n

theorem Placed.own (h : Placed c root) {d : ExprContext} (hd : ctx d ∈ root.children) :
    d = c := by
  cases h with
  | node own _ => exact own d hd

theorem Placed.at? (h : Placed .load root) {n : Node} (hn : root.at? address = some n) :
    Placed (root.contextAt address) n := by
  induction address generalizing n with
  | nil => exact Option.some.inj hn ▸ h
  | cons i address ih =>
      obtain ⟨m, hm, hi⟩ := Option.bind_eq_some_iff.mp hn
      rw [contextAt_cons hm]
      cases ih hm with
      | node _ parts => exact parts i n hi

end Node

namespace TreeGrammar

def Role.Takes : Role → ExprContext → Prop
  | .expression c, d => d = c
  | .context _, _ | .operator _, _ => True
  | _, d => d = .load

/-- A node in a role, all of whose nodes say in which context they stand. -/
def InContext (r : Role) (n : Node) : Prop := Headed r n ∧ ∀ c, r.Takes c → n.Placed c

theorem Role.Heads.eq_context {r : Role} {d : ExprContext} (h : r.Heads (.context d)) :
    r = .context d := by
  cases r <;> simp_all [Heads, Kind.isFree]

/-- The nodes of a list stand in contexts that their places decide. -/
def AllPlaced (contexts : ℕ → ExprContext) (ns : List Node) : Prop :=
  ∀ (i : ℕ) (n : Node), ns[i]? = some n → n.Placed (contexts i)

/-- A context stands only below a node that stands in it. -/
theorem Rule.own {l : Limits} {r : Role} {kind : Kind} {slots : List Slot}
    (h : Rule l r kind slots) {c : ExprContext} (hc : r.Takes c) :
    ∀ slot ∈ slots, ∀ s ∈ slot.roles, ∀ d, s = .context d → d = c := by
  cases h <;> simp_all [Slot.value, Slot.values, Slot.grouped, Slot.target, Slot.block, Slot.use,
    Slot.operator, Slot.roles, Role.Takes]

/-- A kind that reads its children has roles for nothing else. -/
theorem Rule.reads {l : Limits} {r : Role} {kind : Kind} {slots : List Slot}
    (h : Rule l r kind slots) (hk : kind.isBinder = false) :
    ∀ slot ∈ slots, ∀ s ∈ slot.roles, s.Takes .load := by
  cases h with
  | forLoop h | display h =>
      exact absurd ((List.all_eq_true (p := Kind.isBinder)).mp rfl kind h) (by simp [hk])
  | _ => simp_all [Slot.value, Slot.values, Slot.grouped, Slot.block, Slot.use, Slot.operator,
      Slot.roles, Role.Takes, Kind.isBinder]

namespace Fills

variable {slots : List Slot} {ns : List Node}

theorem placed {c : ExprContext} (h : Fills InContext slots ns)
    (ht : ∀ slot ∈ slots, ∀ s ∈ slot.roles, s.Takes c) : ∀ n ∈ ns, n.Placed c := by
  intro n hn
  obtain ⟨slot, hslot, s, hs, hin⟩ := h.forall_fits n hn
  exact hin.2 c (ht slot hslot s hs)

/-- The first node is assigned to, and the others are read. -/
theorem placed_first (h : Fills InContext (Slot.target :: slots) ns)
    (ht : ∀ slot ∈ slots, ∀ s ∈ slot.roles, s.Takes .load) :
    AllPlaced (fun i => if i = 0 then .store else .load) ns := by
  obtain ⟨m, ms, rfl, ⟨s, hs, hm⟩, hms⟩ := h.one_inv
  obtain rfl := List.mem_singleton.mp hs
  intro i n hn
  cases i with
  | zero => exact Option.some.inj hn ▸ hm.2 .store rfl
  | succ i => exact hms.placed ht n (List.mem_of_getElem? hn)

/-- All nodes but the last one are assigned to. -/
theorem placed_assign
    (h : Fills InContext [Slot.target, .many [.expression .store], Slot.value] ns) :
    AllPlaced (fun i => if i + 1 < ns.length then .store else .load) ns := by
  obtain ⟨ms, ms', rfl, hms, hms'⟩ := h.append_inv [Slot.target, .many [.expression .store]]
  obtain ⟨v, vs, rfl, ⟨s, hs, hv⟩, hvs⟩ := hms'.one_inv
  obtain rfl := List.mem_singleton.mp hs
  cases hvs
  have htargets := hms.placed (c := .store) (by simp [Slot.target, Slot.roles, Role.Takes])
  intro i n hn
  show n.Placed (if i + 1 < (ms ++ [v]).length then .store else .load)
  rw [List.length_append, List.length_singleton]
  split
  · rw [List.getElem?_append_left (by omega)] at hn
    exact htargets n (List.mem_of_getElem? hn)
  · rw [List.getElem?_append_right (by omega)] at hn
    obtain rfl := List.mem_singleton.mp (List.mem_of_getElem? hn)
    exact hv.2 .load rfl

/-- The second node, if there is one, is assigned to. -/
theorem placed_item (h : Fills InContext [Slot.value, .maybe [.expression .store]] ns) :
    AllPlaced (fun i => if i = 1 then .store else .load) ns := by
  obtain ⟨m, ms, rfl, ⟨s, hs, hm⟩, hms⟩ := h.one_inv
  obtain rfl := List.mem_singleton.mp hs
  have htarget := hms.placed (c := .store) (by simp [Slot.roles, Role.Takes])
  obtain rfl | ⟨t, rfl, -⟩ := hms.maybe_inv
  · intro i n hn
    cases i with
    | zero => exact Option.some.inj hn ▸ hm.2 .load rfl
    | succ i => simp at hn
  · intro i n hn
    rcases i with _ | _ | i
    · exact Option.some.inj hn ▸ hm.2 .load rfl
    · exact htarget n (List.mem_of_getElem? hn)
    · simp at hn

end Fills

/-- The kind of a node decides in which contexts its children stand. -/
theorem Rule.placed_children {l : Limits} (hplain : l.plain) {r : Role} {kind : Kind}
    {slots : List Slot} {ns : List Node} (h : Rule l r kind slots)
    (hns : Fills InContext slots ns) {c : ExprContext} (hc : r.Takes c) :
    AllPlaced (fun i => kind.childContext c i ns.length) ns := by
  have hall : ∀ d, (∀ i n, kind.childContext c i n = d) →
      (∀ slot ∈ slots, ∀ s ∈ slot.roles, s.Takes d) →
      AllPlaced (fun i => kind.childContext c i ns.length) ns := by
    intro d hd ht i n hn
    show n.Placed (kind.childContext c i ns.length)
    rw [hd]
    exact hns.placed ht n (List.mem_of_getElem? hn)
  -- Only the kinds that bind need to be told apart by their rules; all others read their children.
  cases hk : kind.isBinder with
  | false => exact hall .load (kind.childContext_of_not_binder hk c) (h.reads hk)
  | true =>
      cases h with
      | assign => exact hns.placed_assign
      | annAssign | augAssign | typeAlias | namedExpr | clause =>
          exact hns.placed_first (by
            simp [Slot.value, Slot.values, Slot.grouped, Slot.operator, Slot.roles, Role.Takes])
      | forLoop h =>
          have hfirst := hns.placed_first
            (by simp [Slot.value, Slot.block, Slot.roles, Role.Takes])
          simp only [List.mem_cons, List.not_mem_nil, or_false] at h
          rcases h with rfl | rfl <;> exact hfirst
      | withItem => exact hns.placed_item
      | delete => exact hall .del (fun _ _ => rfl) (by simp [Slot.roles, Role.Takes])
      | starred | group =>
          exact hall c (fun _ _ => rfl) (by
            simp [Slot.values, Slot.use, Slot.roles, Role.Takes, show c = _ from hc])
      | typeStarred h =>
          exact hall c (fun _ _ => rfl) (by
            simp [Slot.value, Slot.use, Slot.roles, Role.Takes, show c = _ from hc, h hplain])
      | display h =>
          refine hall c ?_ (by simp [Slot.use, Slot.roles, Role.Takes, show c = _ from hc])
          simp only [List.mem_cons, List.not_mem_nil, or_false] at h
          rcases h with rfl | rfl <;> exact fun _ _ => rfl
      | function h | values h | bare h | withBlock h | tryBlock h | imports h | parts h
      | comprehension h | operand h | matchLeaf h | matchParts h | typeVars h | leaf h =>
          have hreads := (List.all_eq_true (p := fun k => !k.isBinder)).mp rfl kind h
          simp [hk] at hreads
      | _ => cases hk

/-- The nodes below which contexts agree with their places are closed under the rules, if no target
holds a type splat. -/
theorem layer_inContext (l : Limits) (hplain : l.plain) : Layer l InContext InContext where
  deeper h := h
  node {r kind slots children} hrule hfills := by
    rw [inside_self] at hfills
    refine ⟨hrule.heads, fun c hc =>
      .node (fun d hd => ?_) (hrule.placed_children hplain hfills hc)⟩
    obtain ⟨slot, hslot, s, hs, hheaded, -⟩ := hfills.forall_fits (Node.ctx d) hd
    exact hrule.own hc slot hslot s hs d (Role.Heads.eq_context hheaded)

end TreeGrammar

/-- The places of objects and indices, of defaults, of annotations and of values in patterns. -/
def Kind.readsAt : Kind → (i : ℕ) → Bool
  | .attribute _, _ | .subscript, _ | .arguments, _ | .arg _, _ | .functionDef _, _
  | .asyncFunctionDef _, _ | .matchValue, _ | .matchMapping, _ | .matchClass, _ => true
  | .annAssign, i => i != 0
  | _, _ => false

theorem Kind.childContext_of_readsAt {kind : Kind} {i : ℕ} (h : kind.readsAt i) (c : ExprContext)
    (n : ℕ) : kind.childContext c i n = .load := by
  fun_cases readsAt kind i <;> simp_all [readsAt, childContext]

/-- Lowering threads the contexts through a tree as the places of its nodes ask for. -/
theorem placed_of_lowerModule {source : Source} {root : Tree} {node : Node}
    (h : lowerModule source root = .ok node) (hplain : root.PlainTargets) :
    node.Placed .load := by
  have hconforms := Scope.conforms_withLevels
    (fun _ => layer_inContext ⟨2 * root.size + 1, True⟩ trivial) source nestingLimit
  have hmodule : Yields (Node.Placed .load) (lowerModule source root) := by
    rw [lowerModule_eq]
    refine (hconforms.statements (hplain.keeps root.runsWithin_size)).bind fun statements hs =>
      .pure (.node (fun d hd => ?_) fun i n hn => (hs n (List.mem_of_getElem? hn)).2 .load rfl)
    -- No context stands among the statements of the module itself.
    exact absurd (hs _ hd).1 Bool.false_ne_true
  exact hmodule node h

/-- The contexts in a lowered tree are its binding structure: what a node says of itself is that it
is assigned to, if it is a target of an assignment or of what assigns likewise, that it is deleted,
if it is a target of a deletion, and that it is read otherwise.  Objects and indices, defaults,
annotations and values in patterns are read wherever they stand. -/
theorem context_of_lowerModule {source : Source} {root : Tree} {node : Node}
    (h : lowerModule source root = .ok node) (hplain : root.PlainTargets) {address : List ℕ}
    {owner : Node} {c : ExprContext} (howner : node.at? address = some owner)
    (hc : Node.ctx c ∈ owner.children) :
    (c = .store ↔ node.Targeted .store address) ∧ (c = .del ↔ node.Targeted .del address) ∧
      (c = .load ↔ ¬ node.Targeted .store address ∧ ¬ node.Targeted .del address) ∧
      ∀ i above parent, address = i :: above → node.at? above = some parent →
        parent.kind.readsAt i → c = .load := by
  have hcontext : node.contextAt address = c :=
    ((placed_of_lowerModule h hplain).at? howner |>.own hc).symm
  have htargeted : ∀ d, d ≠ .load → (c = d ↔ node.Targeted d address) := fun d hd =>
    ⟨fun hcd => Node.targeted_of_contextAt (hcontext.trans hcd) hd,
      fun ht => hcontext.symm.trans ht.contextAt_eq⟩
  refine ⟨htargeted .store nofun, htargeted .del nofun, ?_, ?_⟩
  · rw [← htargeted .store nofun, ← htargeted .del nofun]
    cases c <;> decide
  · rintro i above parent rfl hparent hreads
    rw [← hcontext, Node.contextAt_cons hparent]
    exact Kind.childContext_of_readsAt hreads _ _

/-- The concrete tree of `x.a = y`. -/
def Concrete.assignmentTree : Tree :=
  .node (.bare "module" false 0 7) [.node (.bare "expression_statement" false 0 7)
    [.node (.bare "assignment" false 0 7)
      [.node { Info.bare "attribute" false 0 3 with field := some "left" }
          [.node { Info.bare "identifier" false 0 1 with field := some "object" } [],
            .node { Info.bare "identifier" false 2 3 with field := some "attribute" } []],
        .node { Info.bare "identifier" false 6 7 with field := some "right" } []]]]

def Node.assignment : Node :=
  .of .module [.of .assign
    [.of (.attribute "a") [.of (.name "x") [.ctx .load], .ctx .store],
      .of (.name "y") [.ctx .load]]]

theorem context_of_lowerModule_assignment :
    lowerModule (Source.ofText "x.a = y") Concrete.assignmentTree = .ok .assignment ∧
      Node.assignment.Targeted .store [0, 0] ∧ ¬ Node.assignment.Targeted .store [1, 0] ∧
      ∀ c, Node.ctx c ∈ (Node.of (.name "x") [.ctx .load]).children → c = .load := by
  have hlowered : lowerModule (Source.ofText "x.a = y") Concrete.assignmentTree =
      .ok .assignment := by decide +kernel
  have hplain : Concrete.assignmentTree.PlainTargets := by
    have hsingle : ∀ u ∈ Concrete.assignmentTree.subtrees, ∀ t ∈ Concrete.Tree.targets u,
        Concrete.Tree.elements t = [] ∧ Concrete.Tree.kind t ≠ "splat_type" := by decide +kernel
    exact fun u hu t ht =>
      Concrete.Tree.typeFree_of_elements_eq_nil (hsingle u hu t ht).1 (hsingle u hu t ht).2
  have htarget : Node.assignment.at? [0, 0] =
      some (.of (.attribute "a") [.of (.name "x") [.ctx .load], .ctx .store]) := rfl
  have hvalue : Node.assignment.at? [1, 0] = some (.of (.name "y") [.ctx .load]) := rfl
  have hobject : Node.assignment.at? [0, 0, 0] = some (.of (.name "x") [.ctx .load]) := rfl
  have hstore : Node.ctx .store ∈
      (Node.of (.attribute "a") [.of (.name "x") [.ctx .load], .ctx .store]).children := by decide
  refine ⟨hlowered, (context_of_lowerModule hlowered hplain htarget hstore).1.mp rfl, ?_, ?_⟩
  · have hload : Node.ctx .load ∈ (Node.of (.name "y") [.ctx .load]).children := by decide
    exact ((context_of_lowerModule hlowered hplain hvalue hload).2.2.1.mp rfl).1
  · exact fun c hc =>
      (context_of_lowerModule hlowered hplain hobject hc).2.2.2 0 [0, 0] _ rfl htarget rfl

-- What a type splat holds is read even if the splat is deleted, so its absence has to be assumed.
example : lowerModule (Source.ofText "del *x")
    (.node (.bare "module" false 0 6) [.node (.bare "delete_statement" false 0 6)
      [.node (.bare "splat_type" false 4 6) [.node (.bare "identifier" false 5 6) []]]]) =
    .ok (.of .module [.of .delete
      [.of .starred [.of (.name "x") [.ctx .load], .ctx .del]]]) := by decide +kernel

end RenderGate
