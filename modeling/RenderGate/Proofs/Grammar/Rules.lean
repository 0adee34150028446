import RenderGate.Node.Basic
import Mathlib.Data.Nat.Notation

/-!
# A grammar of abstract trees

What a node of an abstract tree may hold depends on its kind and on the role in which it stands.  A
rule gives a kind that a role allows, with the slots that its children fill from left to right.  As
in the abstract grammar of Python, statements, expressions and patterns are nested in each other,
and the other roles are layers between them.

Three roles count down, because their nodes nest without a statement, expression or pattern between
them: the branches of an `if`, the parts of a dotted name, and the formats in formats.  They count
from the length `run` that such runs have at most.
-/

namespace RenderGate.TreeGrammar

inductive Role where
  | statement
  | expression (context : ExprContext)
  | pattern
  /-- Several expressions in the place of one. -/
  | group
  | context (context : ExprContext)
  | operator (allowed : List Operator)
  | keyword
  | arguments
  | parameter
  | comprehension
  /-- A part of a formatted string, with formats in formats up to a number. -/
  | piece (formats : ℕ)
  | format (formats : ℕ)
  /-- A dotted name in a pattern, of a number of parts at most. -/
  | dotted (parts : ℕ)
  | typeParameter
  /-- What is done if a condition fails, with a number of alternatives at most. -/
  | branch (alternatives : ℕ)
  | handler
  | withItem
  | alias
  | matchCase
  /-- Several patterns in the place of one. -/
  | patterns
  /-- A node without children. -/
  | leaf (kind : Kind)
deriving DecidableEq

/-- The children of a node in one place: their roles, and how many there are. -/
inductive Slot where
  | one (roles : List Role)
  | maybe (roles : List Role)
  | many (roles : List Role)

namespace Slot

def roles : Slot → List Role
  | one rs | maybe rs | many rs => rs

def value : Slot := one [.expression .load]

def values : Slot := many [.expression .load]

def grouped : Slot := one [.expression .load, .group]

def target : Slot := one [.expression .store]

def block : Slot := many [.statement]

/-- A use of a name, or of what can be assigned to like a name. -/
def use (context : ExprContext) : Slot := one [.context context]

def operator (tokens : List (String × Operator)) : Slot := one [.operator (tokens.map Prod.snd)]

end Slot

open Slot

/-- What is known of the concrete trees that are lowered. -/
structure Limits where
  /-- How long runs are at most. -/
  run : ℕ
  /-- No target holds a type splat. -/
  plain : Prop

/-- The kinds that a role allows, with the slots of their children. -/
inductive Rule (l : Limits) : Role → Kind → List Slot → Prop
  -- statements
  | function {name kind} (h : kind ∈ [Kind.functionDef name, .asyncFunctionDef name]) :
      Rule l .statement kind
        [values, many [.typeParameter], one [.arguments], maybe [.expression .load], block]
  | classDef {name} : Rule l .statement (.classDef name)
      [values, many [.typeParameter], many [.keyword, .expression .load], block]
  | values {kind} (h : kind ∈ [Kind.returnValue, .raise, .assertion]) :
      Rule l .statement kind [values]
  | bare {kind} (h : kind ∈ [Kind.pass, .breakLoop, .continueLoop, .globalNames, .nonlocalNames]) :
      Rule l .statement kind []
  | delete : Rule l .statement .delete [many [.expression .del]]
  | assign : Rule l .statement .assign [target, many [.expression .store], value]
  | annAssign : Rule l .statement .annAssign [target, value, maybe [.expression .load]]
  | augAssign : Rule l .statement .augAssign [target, operator Operator.binaryTokens, value]
  | forLoop {kind} (h : kind ∈ [Kind.forLoop, .asyncFor]) :
      Rule l .statement kind [target, value, block]
  | whileLoop : Rule l .statement .whileLoop [value, block]
  | ifElse : Rule l .statement .ifElse [value, block, maybe [.branch l.run]]
  | withBlock {kind} (h : kind ∈ [Kind.withBlock, .asyncWith]) :
      Rule l .statement kind [many [.withItem], block]
  | matchStmt : Rule l .statement .matchStmt [grouped, many [.matchCase]]
  | tryBlock {kind} (h : kind ∈ [Kind.tryBlock, .tryStar]) :
      Rule l .statement kind [many [.statement, .handler]]
  | imports {kind} (h : kind ∈ [Kind.importNames, .importFrom]) :
      Rule l .statement kind [many [.alias]]
  | expr : Rule l .statement .expr [grouped]
  | typeAlias : Rule l .statement .typeAlias [target, many [.typeParameter], value]
  -- expressions
  | name {c id} : Rule l (.expression c) (.name id) [use c]
  | attribute {c attr} : Rule l (.expression c) (.attribute attr) [value, use c]
  | subscript {c} : Rule l (.expression c) .subscript [value, grouped, use c]
  | starred {c} : Rule l (.expression c) .starred [one [.expression c], use c]
  -- A type splat reads what it holds, even where it is assigned to itself.
  | typeStarred {c} (h : l.plain → c = .load) : Rule l (.expression c) .starred [value, use c]
  | display {c kind} (h : kind ∈ [Kind.list, .tuple]) :
      Rule l (.expression c) kind [many [.expression c], use c]
  | parts {c kind} (h : kind ∈ [Kind.slice, .setDisplay, .dict, .ifExp]) :
      Rule l (.expression c) kind [values]
  | call {c} : Rule l (.expression c) .call [value, many [.keyword, .expression .load]]
  | binOp {c} : Rule l (.expression c) .binOp [value, operator Operator.binaryTokens, value]
  | unaryOp {c} : Rule l (.expression c) .unaryOp [operator Operator.unaryTokens, value]
  | boolOp {c} : Rule l (.expression c) .boolOp
      [operator Operator.booleanTokens, value, value, values]
  | compare {c} : Rule l (.expression c) .compare
      [many [.operator (Operator.comparisonTokens.map Prod.snd), .expression .load]]
  | constant {c} : Rule l (.expression c) .constant []
  | joinedStr {c} : Rule l (.expression c) .joinedStr [many [.piece ((l.run - 1) / 2)]]
  | comprehension {c kind} (h : kind ∈ [Kind.listComp, .setComp, .dictComp, .generatorExp]) :
      Rule l (.expression c) kind [values, many [.comprehension]]
  | lambda {c} : Rule l (.expression c) .lambda [one [.arguments], value]
  | operand {c kind} (h : kind ∈ [Kind.await, .yieldFrom]) : Rule l (.expression c) kind [value]
  | yield {c} : Rule l (.expression c) .yield [maybe [.expression .load]]
  | namedExpr {c} : Rule l (.expression c) .namedExpr [target, value]
  -- patterns
  | matchAs : Rule l .pattern .matchAs [maybe [.pattern]]
  | matchValue : Rule l .pattern .matchValue
      [one [.dotted l.run, .leaf .constant, .expression .load]]
  | matchLeaf {kind} (h : kind ∈ [Kind.matchSingleton, .matchStar]) : Rule l .pattern kind []
  | matchParts {kind} (h : kind ∈ [Kind.matchSequence, .matchOr]) :
      Rule l .pattern kind [many [.pattern]]
  | matchClass : Rule l .pattern .matchClass [many [.dotted l.run, .pattern]]
  | matchMapping : Rule l .pattern .matchMapping
      [many [.leaf .matchStar, .dotted l.run, .expression .load, .pattern]]
  -- layers
  | group : Rule l .group .tuple [values, use .load]
  | context {c} : Rule l (.context c) (.context c) []
  | operator {allowed o} (h : o ∈ allowed) : Rule l (.operator allowed) (.op o) []
  | keyword {arg} : Rule l .keyword (.keyword arg) [value]
  | arguments : Rule l .arguments .arguments [many [.parameter, .expression .load]]
  | parameter {name} : Rule l .parameter (.arg name) [maybe [.expression .load]]
  | clause : Rule l .comprehension .comprehension [target, grouped, values]
  | literal {n} : Rule l (.piece n) .constant []
  | interpolation {n} : Rule l (.piece n) .formattedValue [value, maybe [.format n]]
  | format {n} : Rule l (.format (n + 1)) .joinedStr [many [.piece n]]
  | dottedName {n id} : Rule l (.dotted (n + 1)) (.name id) [use .load]
  | dottedAttribute {n attr} : Rule l (.dotted (n + 1)) (.attribute attr)
      [one [.dotted n], use .load]
  | typeVar : Rule l .typeParameter .typeVar [maybe [.expression .load]]
  | typeVars {kind} (h : kind ∈ [Kind.paramSpec, .typeVarTuple]) : Rule l .typeParameter kind []
  | elif {n} : Rule l (.branch (n + 1)) .ifElse [value, block, maybe [.branch n]]
  | handler {name} : Rule l .handler (.exceptHandler name) [maybe [.expression .load], block]
  | withItem : Rule l .withItem .withItem [value, maybe [.expression .store]]
  | alias {name} : Rule l .alias (.alias name) []
  | matchCase : Rule l .matchCase .matchCase
      [one [.pattern, .patterns], maybe [.expression .load], block]
  | patterns : Rule l .patterns .matchSequence [many [.pattern]]
  | leaf {kind} (h : kind ∈ [Kind.constant, .matchStar]) : Rule l (.leaf kind) kind []

def Fits (C : Role → Node → Prop) (roles : List Role) (n : Node) : Prop := ∃ r ∈ roles, C r n

inductive Fills (C : Role → Node → Prop) : List Slot → List Node → Prop
  | nil : Fills C [] []
  | one {roles slots n ns} (h : Fits C roles n) (hs : Fills C slots ns) :
      Fills C (.one roles :: slots) (n :: ns)
  | maybe {roles slots ms ns} (h : ∀ n ∈ ms, Fits C roles n) (hlen : ms.length ≤ 1)
      (hs : Fills C slots ns) : Fills C (.maybe roles :: slots) (ms ++ ns)
  | many {roles slots ms ns} (h : ∀ n ∈ ms, Fits C roles n) (hs : Fills C slots ns) :
      Fills C (.many roles :: slots) (ms ++ ns)

variable {P Q C : Role → Node → Prop} {r : Role} {n : Node}

theorem Fits.only (h : C r n) : Fits C [r] n := ⟨r, List.mem_singleton_self r, h⟩

theorem Fits.each {ns : List Node} (h : ∀ n ∈ ns, C r n) : ∀ n ∈ ns, Fits C [r] n :=
  fun n hn => .only (h n hn)

theorem Fits.cons {roles : List Role} (h : Fits C roles n) : Fits C (r :: roles) n := by
  obtain ⟨s, hs, hn⟩ := h
  exact ⟨s, List.mem_cons_of_mem r hs, hn⟩

theorem Fits.head {roles : List Role} (h : C r n) : Fits C (r :: roles) n :=
  ⟨r, List.mem_cons_self, h⟩

namespace Fills

variable {roles : List Role} {ns : List Node}

theorem last (h : Fits C roles n) : Fills C [.one roles] [n] := .one h .nil

theorem all (h : ∀ n ∈ ns, Fits C roles n) : Fills C [.many roles] ns := by
  rw [← List.append_nil ns]
  exact .many h .nil

theorem atMostOne (h : ∀ n ∈ ns, Fits C roles n) (hlen : ns.length ≤ 1) :
    Fills C [.maybe roles] ns := by
  rw [← List.append_nil ns]
  exact .maybe h hlen .nil

theorem skip {slots : List Slot} (hs : Fills C slots ns) : Fills C (.many roles :: slots) ns :=
  @many C roles slots [] ns (List.forall_mem_nil _) hs

theorem append {slots slots' : List Slot} {ms : List Node} (h : Fills C slots ns)
    (h' : Fills C slots' ms) : Fills C (slots ++ slots') (ns ++ ms) := by
  induction h with
  | nil => exact h'
  | one hn _ ih => exact .one hn ih
  | maybe hn hlen _ ih =>
      rw [List.append_assoc]
      exact .maybe hn hlen ih
  | many hn _ ih =>
      rw [List.append_assoc]
      exact .many hn ih

/-- A slot for any number of nodes takes more of them. -/
theorem prepend {slots : List Slot} {ms : List Node} (hs : Fills C (.many roles :: slots) ns)
    (h : ∀ m ∈ ms, Fits C roles m) : Fills C (.many roles :: slots) (ms ++ ns) := by
  cases hs with
  | many hns hs =>
      rw [← List.append_assoc]
      exact .many (List.forall_mem_append.mpr ⟨h, hns⟩) hs

theorem none : Fills C [.maybe roles] [] := .atMostOne (by simp) (by simp)

theorem some (h : Fits C roles n) : Fills C [.maybe roles] [n] := .atMostOne (by simpa) (by simp)

theorem forall_fits {slots : List Slot} (h : Fills C slots ns) :
    ∀ n ∈ ns, ∃ slot ∈ slots, Fits C slot.roles n := by
  induction h with
  | nil => exact fun n hn => absurd hn List.not_mem_nil
  | one h _ ih =>
      refine List.forall_mem_cons.mpr ⟨⟨_, List.mem_cons_self, h⟩, fun n hn => ?_⟩
      obtain ⟨slot, hslot, hfits⟩ := ih n hn
      exact ⟨slot, List.mem_cons_of_mem _ hslot, hfits⟩
  | maybe h _ _ ih | many h _ ih =>
      refine List.forall_mem_append.mpr
        ⟨fun n hn => ⟨_, List.mem_cons_self, h n hn⟩, fun n hn => ?_⟩
      obtain ⟨slot, hslot, hfits⟩ := ih n hn
      exact ⟨slot, List.mem_cons_of_mem _ hslot, hfits⟩

theorem one_inv {slots : List Slot} (h : Fills C (.one roles :: slots) ns) :
    ∃ n ms, ns = n :: ms ∧ Fits C roles n ∧ Fills C slots ms := by
  cases h with
  | one hn hs => exact ⟨_, _, rfl, hn, hs⟩

theorem maybe_inv (h : Fills C [.maybe roles] ns) : ns = [] ∨ ∃ n, ns = [n] ∧ Fits C roles n := by
  cases h with
  | @maybe _ _ ms _ hms hlen hs =>
      cases hs
      rcases ms with _ | ⟨m, _ | ⟨_, ms⟩⟩
      · exact .inl rfl
      · exact .inr ⟨m, rfl, hms m List.mem_cons_self⟩
      · simp at hlen

/-- What fills two layouts in a row is in two parts. -/
theorem append_inv (before : List Slot) {after : List Slot} (h : Fills C (before ++ after) ns) :
    ∃ ms ms', ns = ms ++ ms' ∧ Fills C before ms ∧ Fills C after ms' := by
  induction before generalizing ns with
  | nil => exact ⟨[], ns, rfl, .nil, h⟩
  | cons slot before ih =>
      cases h with
      | one hn hs =>
          obtain ⟨ms, ms', rfl, hms, hms'⟩ := ih hs
          exact ⟨_, ms', rfl, .one hn hms, hms'⟩
      | maybe hns hlen hs =>
          obtain ⟨ms, ms', rfl, hms, hms'⟩ := ih hs
          exact ⟨_, ms', (List.append_assoc ..).symm, .maybe hns hlen hms, hms'⟩
      | many hns hs =>
          obtain ⟨ms, ms', rfl, hms, hms'⟩ := ih hs
          exact ⟨_, ms', (List.append_assoc ..).symm, .many hns hms, hms'⟩

theorem imp {D : Role → Node → Prop} {slots : List Slot} (h : Fills C slots ns)
    (hCD : ∀ r n, C r n → D r n) : Fills D slots ns := by
  have hfits : ∀ {roles n}, Fits C roles n → Fits D roles n :=
    fun ⟨r, hr, hn⟩ => ⟨r, hr, hCD r _ hn⟩
  induction h with
  | nil => exact .nil
  | one hn _ ih => exact .one (hfits hn) ih
  | maybe hns hlen _ ih => exact .maybe (fun n hn => hfits (hns n hn)) hlen ih
  | many hns _ ih => exact .many (fun n hn => hfits (hns n hn)) ih

end Fills

/-- The nodes that may stand below a node: the nested ones come from further in. -/
def inside (P Q : Role → Node → Prop) : Role → Node → Prop
  | .statement => P .statement
  | .expression c => P (.expression c)
  | .pattern => P .pattern
  | r => Q r

/-- One layer of nesting: whatever a rule makes of nested nodes in `P` and of other nodes in `Q` is
in `Q`, and nothing of `P` is lost. -/
structure Layer (l : Limits) (P Q : Role → Node → Prop) : Prop where
  node : ∀ {r kind slots children}, Rule l r kind slots → Fills (inside P Q) slots children →
    Q r (.of kind children)
  deeper : ∀ {r n}, P r n → Q r n

namespace Fills

variable {l : Limits} {slots : List Slot} {ns ms : List Node}

theorem value (h : P (.expression .load) n) (hs : Fills (inside P Q) slots ns) :
    Fills (inside P Q) (Slot.value :: slots) (n :: ns) := .one (.only h) hs

theorem target (h : P (.expression .store) n) (hs : Fills (inside P Q) slots ns) :
    Fills (inside P Q) (Slot.target :: slots) (n :: ns) := .one (.only h) hs

theorem values (h : ∀ m ∈ ms, P (.expression .load) m) (hs : Fills (inside P Q) slots ns) :
    Fills (inside P Q) (Slot.values :: slots) (ms ++ ns) := .many (.each h) hs

theorem allValues (h : ∀ m ∈ ms, P (.expression .load) m) : Fills (inside P Q) [Slot.values] ms :=
  .all (.each h)

theorem block (h : ∀ m ∈ ms, P .statement m) : Fills (inside P Q) [Slot.block] ms :=
  .all (.each h)

theorem use (g : Layer l P Q) (c : ExprContext) : Fills (inside P Q) [Slot.use c] [.ctx c] :=
  .last (.only (g.node .context .nil))

theorem operator (g : Layer l P Q) {tokens : List (String × Operator)} {o : Operator}
    (ho : o ∈ tokens.map Prod.snd) (hs : Fills (inside P Q) slots ns) :
    Fills (inside P Q) (Slot.operator tokens :: slots) (.op o :: ns) :=
  .one (.only (g.node (.operator ho) .nil)) hs

end Fills

end RenderGate.TreeGrammar
