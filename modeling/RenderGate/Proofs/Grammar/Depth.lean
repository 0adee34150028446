import RenderGate.Proofs.Grammar.Statement
import RenderGate.Proofs.Lowering.Layout
import RenderGate.Proofs.Node.Census

/-!
# The depth of lowered trees

One level of nesting adds a bounded number of layers to a tree, so the number of levels bounds its
depth.  The layers of a level are as many as the longest run of alternatives, of parts of a dotted
name or of formats in formats asks for, because the steps of a run do not take a level each.
-/

namespace RenderGate

open Concrete (Source Tree)
open TreeGrammar

namespace TreeGrammar

/-- How many layers lie between a node in a role and the nested nodes below it, or below a leaf. -/
def Role.layers (run : ℕ) : Role → ℕ
  | .statement | .expression _ | .pattern => run + 1
  | .context _ | .operator _ | .alias | .leaf _ => 0
  | .group | .keyword | .parameter | .typeParameter | .handler | .withItem | .patterns => 1
  | .arguments | .comprehension | .matchCase => 2
  | .piece n => 2 * n + 1
  | .format n => 2 * n
  | .dotted n | .branch n => n

/-- How many of the layers of a level a child takes up; a nested node takes up none. -/
def Role.inset (run : ℕ) : Role → ℕ
  | .statement | .expression _ | .pattern => 0
  | r => r.layers run

/-- A child takes up fewer layers than its parent. -/
theorem Rule.inset_lt {l : Limits} (hrun : 2 ≤ l.run) {r : Role} {kind : Kind} {slots : List Slot}
    (h : Rule l r kind slots) :
    ∀ slot ∈ slots, ∀ s ∈ slot.roles, s.inset l.run < r.layers l.run := by
  cases h <;> simp [Slot.value, Slot.values, Slot.grouped, Slot.target, Slot.block, Slot.use,
    Slot.operator, Slot.roles, Role.inset, Role.layers] <;> omega

/-- A node is no higher than its role allows under a number of levels. -/
def Bounded (run levels : ℕ) (r : Role) (n : Node) : Prop :=
  n.height + (run + 1) ≤ r.layers run + (run + 1) * levels

theorem height_le_of_inside {run n : ℕ} {r : Role} {c : Node}
    (h : inside (Bounded run n) (Bounded run (n + 1)) r c) :
    c.height ≤ r.inset run + (run + 1) * n := by
  cases r <;>
    simp only [inside, Bounded, Role.inset, Role.layers, Nat.mul_succ] at h ⊢ <;> omega

theorem layer_bounded {l : Limits} (hrun : 2 ≤ l.run) (n : ℕ) :
    Layer l (Bounded l.run n) (Bounded l.run (n + 1)) where
  deeper h := by
    unfold Bounded at h ⊢
    rw [Nat.mul_succ]
    omega
  node {r kind slots children} hrule hfills := by
    -- A child has its inset of this level and the levels below, and the rule leaves one layer.
    have hheight : (Node.of kind children).height ≤ r.layers l.run + (l.run + 1) * n := by
      refine Node.height_of_le_iff.mpr fun c hc => ?_
      obtain ⟨slot, hslot, s, hs, hinside⟩ := hfills.forall_fits c hc
      have hlt := hrule.inset_lt hrun slot hslot s hs
      have hle := height_le_of_inside hinside
      omega
    unfold Bounded
    rw [Nat.mul_succ]
    omega

end TreeGrammar

namespace Concrete

def trueTree (field : Option String) : Tree :=
  .node { Info.bare "true" false 0 0 with field := field } []

/-- A format that holds an interpolation of a constant with such a format, a number of times. -/
def nestedFormat : ℕ → List Tree
  | 0 => []
  | n + 1 =>
      [.node { Info.bare "format_specifier" false 0 0 with field := some "format_specifier" }
        [.node (.bare "format_expression" false 0 0)
          (trueTree (some "expression") :: nestedFormat n)]]

def nestedFormats (kind : String) (n : ℕ) : Tree :=
  .node (.bare kind false 0 0) (trueTree (some "expression") :: nestedFormat n)

/-- A formatted string, whose opening quote is the text from 0 to 2. -/
def formatString (n : ℕ) : Tree :=
  .node (.bare "string" false 0 0)
    [.node (.bare "string_start" false 0 2) [], nestedFormats "interpolation" n]

def formatModule (n : ℕ) : Tree :=
  .node (.bare "module" false 0 0)
    [.node (.bare "expression_statement" false 0 0) [formatString n]]

end Concrete

namespace Node

def nestedFormats : ℕ → Node
  | 0 => .of .formattedValue [.leaf .constant]
  | n + 1 => .of .formattedValue [.leaf .constant, .of .joinedStr [nestedFormats n]]

def formatModule (n : ℕ) : Node := .of .module [.of .expr [.of .joinedStr [nestedFormats n]]]

end Node

theorem height_le_of_lowerModule {run : ℕ} (hrun : 2 ≤ run) {source : Source} {root : Tree}
    (hruns : root.RunsWithin run) {node : Node} (h : lowerModule source root = .ok node) :
    node.height ≤ (run + 1) * (nestingLimit + 1) := by
  have hconforms := Scope.conforms_withLevels (layer_bounded (l := ⟨run, False⟩) hrun) source
    nestingLimit
  have hmodule : Yields (fun n => n.height ≤ (run + 1) * (nestingLimit + 1))
      (lowerModule source root) := by
    rw [lowerModule_eq]
    refine (hconforms.statements hruns.keeps).bind fun statements hs => .pure ?_
    refine Node.height_of_le_iff.mpr fun c hc => ?_
    have hbounded := hs c hc
    simp only [Bounded, Role.layers] at hbounded
    rw [Nat.mul_succ]
    omega
  exact hmodule node h

/-- Where no run of alternatives, of parts of a dotted name or of formats in formats is longer than
`run`, a lowered tree has at most `run + 1` layers for each level of nesting, and a text is refused
as nested too deep if its tree has more. -/
theorem parseTree_depth_le {run : ℕ} (hrun : 2 ≤ run) {text : String} {root : Tree}
    (hroot : root.info.faulty = false) (hruns : root.RunsWithin run) :
    (∀ node, parseTree text root = .ok node →
      node.fingerprint.maxDepth ≤ (run + 1) * (nestingLimit + 1)) ∧
    ∀ levels node, lowerWithLevels (Source.ofText text) levels root = .ok node →
      (run + 1) * (nestingLimit + 1) < node.fingerprint.maxDepth →
      ∃ p, parseTree text root = .error (.fault (.tooDeep nestingLimit) p) := by
  have hparse : parseTree text root = lowerModule (Source.ofText text) root := by
    rw [parseTree, hroot, if_neg Bool.false_ne_true]
  rw [hparse]
  simp only [Node.maxDepth_fingerprint]
  refine ⟨fun node h => height_le_of_lowerModule hrun hruns h, fun levels node h hdeep => ?_⟩
  -- Fewer levels give the same tree or run out, and the tree is too high for the limit.
  rcases lowerModule_of_lowerWithLevels h with hok | ⟨e, ⟨p, rfl⟩, he⟩
  · exact absurd (height_le_of_lowerModule hrun hruns hok) (Nat.not_le_of_gt hdeep)
  · exact ⟨p, he⟩

theorem parseTree_depth_le_format :
    (parseTree "f\"" (Concrete.formatModule 1) = .ok (.formatModule 1)) ∧
      (Node.formatModule 1).fingerprint.maxDepth ≤ 4 * (nestingLimit + 1) := by
  have hparse : parseTree "f\"" (Concrete.formatModule 1) = .ok (.formatModule 1) := by
    decide +kernel
  exact ⟨hparse, (parseTree_depth_le (show 2 ≤ 3 by decide) (by decide) (by decide +kernel)).1
    _ hparse⟩

theorem Node.lt_height_nestedFormats (n : ℕ) : 2 * n < (nestedFormats n).height := by
  induction n with
  | zero => exact Nat.zero_lt_of_lt (height_lt_of_mem _ (c := .leaf .constant) List.mem_cons_self)
  | succ n ih =>
      have hinner := height_lt_of_mem .joinedStr (List.mem_singleton_self (nestedFormats n))
      have houter : (of .joinedStr [nestedFormats n]).height < (nestedFormats (n + 1)).height :=
        height_lt_of_mem _ (List.mem_cons_of_mem _ List.mem_cons_self)
      omega

theorem Node.lt_height_formatModule (n : ℕ) : 2 * n < (formatModule n).height :=
  calc 2 * n < (nestedFormats n).height := lt_height_nestedFormats n
    _ < (of .joinedStr [nestedFormats n]).height := height_lt_of_mem _ (List.mem_singleton_self _)
    _ < (of .expr [of .joinedStr [nestedFormats n]]).height :=
      height_lt_of_mem _ (List.mem_singleton_self _)
    _ < (formatModule n).height := height_lt_of_mem _ (List.mem_singleton_self _)

namespace Scope

open Concrete (trueTree)

variable {S : Scope Lowered}
  (hS : S.expression .load (trueTree (some "expression")) = .ok (.leaf .constant))
include hS

theorem interpolation_nestedFormats (kind : String) (n : ℕ) :
    S.interpolation (Concrete.nestedFormats kind n) = .ok (.nestedFormats n) := by
  have hvalue : ∀ kind m, S.interpolated (Concrete.nestedFormats kind m) >>= S.expression .load =
    .ok (.leaf .constant) := fun _ _ => hS
  induction n generalizing kind with
  | zero =>
      rw [interpolation_eq, hvalue]
      rfl
  | succ n ih =>
      have hpieces : [Concrete.nestedFormats "format_expression" n].mapM S.formatPiece =
          .ok [some (.nestedFormats n)] := by
        have hi : interpolates (Concrete.nestedFormats "format_expression" n) = true := rfl
        rw [List.mapM_cons, formatPiece, if_pos hi, ih]
        rfl
      rw [interpolation_eq, hvalue]
      show (do
        let pieces ← [Concrete.nestedFormats "format_expression" n].mapM S.formatPiece
        return Node.of .formattedValue [.leaf .constant, .of .joinedStr (joinPieces pieces)]) = _
      rw [hpieces]
      rfl

theorem string_formatString (hsource : S.source = Source.ofText "f\"") (n : ℕ) :
    S.string (Concrete.formatString n) = .ok (.of .joinedStr [.nestedFormats n]) := by
  have htext : S.text (.node (.bare "string_start" false 0 2) []) = .ok "f\"" := by
    have hslice : (Source.ofText "f\"").slice? (.node (.bare "string_start" false 0 2) []) =
      some "f\"" := by decide +kernel
    rw [Scope.text, hsource, hslice]
    rfl
  have hformatted : S.isFormatted (Concrete.formatString n) = .ok true := by
    show (do
      let opening ← S.text (.node (.bare "string_start" false 0 2) [])
      return (opening.toList.takeWhile fun c => c != '"' && c != '\'').any
        fun c => c == 'f' || c == 'F') = _
    rw [htext]
    rfl
  have hcontent : S.partContent (Concrete.formatString n) = .ok [some (.nestedFormats n)] := by
    rw [Scope.partContent, hformatted]
    show (some <$> S.interpolation (Concrete.nestedFormats "interpolation" n) >>= fun o =>
      Except.ok [o]) = _
    rw [interpolation_nestedFormats hS]
    rfl
  show (do
    let formatted ← [Concrete.formatString n].mapM S.isFormatted
    if formatted.any id then
      let contents ← [Concrete.formatString n].mapM S.partContent
      return Node.of .joinedStr (joinPieces contents.flatten)
    else return Node.leaf .constant) = _
  rw [List.mapM_cons, hformatted, List.mapM_cons, hcontent]
  rfl

omit hS in
theorem expression_outer_formatString (n : ℕ) :
    S.outer.expression .load (Concrete.formatString n) = S.string (Concrete.formatString n) := by
  have hform : ExpressionForm.ofKind? "string" = some .string := by decide
  show S.expressionNode .load (Concrete.formatString n) = _
  unfold expressionNode
  rw [show (Concrete.formatString n).kind = "string" from rfl, hform]
  rfl

omit hS in
theorem statement_outer_formatModule (n : ℕ) : S.outer.statements (Concrete.formatModule n) =
    (do return [.of .expr [← S.expression .load (Concrete.formatString n)]]) := by
  have hform : StatementForm.ofKind? "expression_statement" = some .expression := by decide
  show [Rose.node (Concrete.Info.bare "expression_statement" false 0 0)
    [Concrete.formatString n]].mapM S.statementNode = _
  rw [List.mapM_cons, statementNode, show Tree.kind (.node (.bare "expression_statement" false 0 0)
    [Concrete.formatString n]) = "expression_statement" from rfl, hform]
  show (do
    let value ← S.expression .load (Concrete.formatString n)
    return Node.of .expr [value]) >>= _ = _
  rw [bind_assoc]
  rfl

end Scope

theorem lowerModule_formatModule (n : ℕ) :
    lowerModule (Source.ofText "f\"") (Concrete.formatModule n) =
      .ok (.formatModule n) := by
  have hlevels : ∀ m, (Scope.withLevels (Source.ofText "f\"") (m + 3)).statements
      (Concrete.formatModule n) = .ok [.of .expr [.of .joinedStr [.nestedFormats n]]] := by
    intro m
    have hvalue := Scope.string_formatString (S := Scope.withLevels (Source.ofText "f\"") (m + 1))
      rfl (Scope.source_withLevels _ _) n
    rw [Scope.withLevels_succ, Scope.statement_outer_formatModule, Scope.withLevels_succ,
      Scope.expression_outer_formatString, hvalue]
    rfl
  rw [lowerModule_eq]
  exact congrArg (fun r => r >>= fun ns => Except.ok (Node.of .module ns)) (hlevels 253)

/-- The depth of lowered trees has no bound, for formats in formats do not count as nested. -/
theorem exists_depth_gt (n : ℕ) : ∃ text root node, root.info.faulty = false ∧
    parseTree text root = .ok node ∧ n < node.fingerprint.maxDepth := by
  refine ⟨"f\"", Concrete.formatModule n, _, rfl, lowerModule_formatModule n, ?_⟩
  have hdeep : 2 * n < (Node.formatModule n).height := Node.lt_height_formatModule n
  rw [Node.maxDepth_fingerprint]
  omega

/-- The bound that three layers for each level would give does not hold. -/
theorem not_depth_le : ¬ ∀ text root node, root.info.faulty = false →
    parseTree text root = .ok node → node.fingerprint.maxDepth ≤ 4 * (nestingLimit + 1) := by
  intro h
  obtain ⟨text, root, node, hroot, hparse, hdeep⟩ := exists_depth_gt (4 * (nestingLimit + 1))
  exact absurd (h text root node hroot hparse) (Nat.not_le_of_gt hdeep)

end RenderGate
