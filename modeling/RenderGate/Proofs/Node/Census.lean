import RenderGate.Node.Fingerprint
import RenderGate.Proofs.Node.Height
import RenderGate.Proofs.Rose.Walk
import RenderGate.Proofs.Table
import Mathlib.Data.Multiset.Defs

/-!
# What a census counts

A census adds up over the nodes that are visited, in whatever order that happens.  The kinds that it
counts apart are told from all others by their type names, so a fingerprint is told by the type
names of the nodes and the height of the tree (`fingerprint_eq`).  The nodes of a tree with their
depths thus tell all of it, and it does not matter in which order siblings stand.
-/

namespace RenderGate

def countAny (names texts : List String) : ℕ := (names.map texts.count).sum

theorem countAny_cons (names : List String) (x : String) (xs : List String) :
    countAny names (x :: xs) = countAny names xs + names.count x := by
  unfold countAny
  induction names with
  | nil => rfl
  | cons name names ih =>
      rw [List.map_cons, List.map_cons, List.sum_cons, List.sum_cons, ih, List.count_cons,
        List.count_cons, Bool.beq_comm]
      omega

theorem countAny_eq_of_perm {names texts others : List String} (h : texts.Perm others) :
    countAny names texts = countAny names others :=
  congrArg List.sum (List.map_congr_left fun name _ => h.count_eq name)

def functionTypes : List String := ["FunctionDef", "AsyncFunctionDef"]

def classTypes : List String := ["ClassDef"]

def importTypes : List String := ["Import", "ImportFrom"]

/-- The type names of control flow that adds to the complexity. -/
def branchTypes : List String := ["If", "For", "While", "Try"]

namespace Fingerprint

def ofTypes (types : List String) (height : ℕ) : Fingerprint where
  nodeCount := types.length
  maxDepth := height
  functionCount := countAny functionTypes types
  classCount := countAny classTypes types
  importCount := countAny importTypes types
  complexityScore := Float.ofNat (countAny functionTypes types * 2 +
    countAny classTypes types * 3 + countAny branchTypes types)
  histogram := .tally types

theorem ofTypes_eq_of_perm {types others : List String} (h : types.Perm others) (height : ℕ) :
    ofTypes types height = ofTypes others height := by
  simp only [ofTypes, h.length_eq, countAny_eq_of_perm h, Table.tally_eq_of_perm h]

theorem countOf_ofTypes (types : List String) (height : ℕ) (key : String) :
    (ofTypes types height).countOf key = types.count key := Table.getD_tally types key

end Fingerprint

namespace Census

theorem visit_eq (c : Census) (depth : ℕ) (k : Kind) : c.visit depth k =
    { nodeCount := c.nodeCount + 1
      maxDepth := max c.maxDepth depth
      functionCount := c.functionCount + functionTypes.count k.typeName
      classCount := c.classCount + classTypes.count k.typeName
      importCount := c.importCount + importTypes.count k.typeName
      branchCount := c.branchCount + branchTypes.count k.typeName
      histogram := c.histogram.increment k.typeName } := by
  -- Contexts and operators share a constructor, so their names are compared one by one.
  cases k with
  | context context => cases context <;> rfl
  | op operator => cases operator <;> rfl
  | _ => rfl

/-- Every count adds up over the rows that are visited. -/
theorem foldl_visit (rows : List (ℕ × Kind)) (c : Census) :
    rows.foldl (fun c r => c.visit r.1 r.2) c =
      let types := rows.map fun r => r.2.typeName
      { nodeCount := c.nodeCount + rows.length
        maxDepth := (rows.map Prod.fst).foldl max c.maxDepth
        functionCount := c.functionCount + countAny functionTypes types
        classCount := c.classCount + countAny classTypes types
        importCount := c.importCount + countAny importTypes types
        branchCount := c.branchCount + countAny branchTypes types
        histogram := types.foldl Table.increment c.histogram } := by
  induction rows generalizing c with
  | nil => rfl
  | cons r rows ih =>
      rw [List.foldl_cons, ih, visit_eq]
      simp only [List.map_cons, List.length_cons, List.foldl_cons, countAny_cons, Nat.add_assoc,
        Nat.add_comm, Nat.add_left_comm]

end Census

theorem foldl_max_le_iff {b : ℕ} (l : List ℕ) (a : ℕ) :
    l.foldl max a ≤ b ↔ a ≤ b ∧ ∀ x ∈ l, x ≤ b := by
  induction l generalizing a with
  | nil => simp
  | cons x l ih =>
      rw [List.foldl_cons, ih, Nat.max_le, List.forall_mem_cons, and_assoc]

namespace Node

def types (n : Node) : List String := n.values.map Kind.typeName

theorem length_types (n : Node) : n.types.length = Rose.size n := by
  rw [types, List.length_map, Rose.length_values]

theorem foldl_max_depths {n : Node} {depths : List ℕ} (h : depths.Perm (n.rows.map Prod.fst)) :
    depths.foldl max 0 = n.height := by
  refine eq_of_forall_ge_iff fun b => ?_
  rw [foldl_max_le_iff, and_iff_right (Nat.zero_le b), Rose.height_le_iff]
  simp only [h.mem_iff]

/-- A fingerprint shows the type names of the nodes and the height of the tree. -/
theorem fingerprint_eq (n : Node) : n.fingerprint = .ofTypes n.types n.height := by
  obtain ⟨rows, hperm, hwalk⟩ := Rose.exists_perm_rows_walk .leftward Census.visit n .empty
  have htypes : (rows.map fun r => r.2.typeName).Perm n.types := by
    rw [types, Rose.values, List.map_map]
    exact hperm.map _
  rw [fingerprint, hwalk, Census.foldl_visit, ← foldl_max_depths (hperm.map Prod.fst),
    ← Fingerprint.ofTypes_eq_of_perm htypes]
  simp only [Census.fingerprint, Census.empty, Nat.zero_add, Fingerprint.ofTypes, List.length_map]
  rfl

theorem size_eq (n : Node) : n.size = Rose.size n := by
  obtain ⟨rows, hperm, hwalk⟩ := Rose.exists_perm_rows_walk .leftward
    (fun count _ (_ : Kind) => count + 1) n 0
  rw [size, hwalk, List.foldl_add_const, Nat.zero_add, Nat.one_mul, hperm.length_eq,
    ← Rose.length_values, Rose.values, List.length_map]

theorem maxDepth_fingerprint (n : Node) : n.fingerprint.maxDepth = n.height :=
  congrArg Fingerprint.maxDepth n.fingerprint_eq

theorem nodeCount_fingerprint (n : Node) : n.fingerprint.nodeCount = Rose.size n := by
  rw [← length_types, fingerprint_eq]
  rfl

theorem countOf_fingerprint (n : Node) (key : String) :
    n.fingerprint.countOf key = n.types.count key := by
  rw [fingerprint_eq, Fingerprint.countOf_ofTypes]

theorem functionCount_fingerprint (n : Node) : n.fingerprint.functionCount =
    n.fingerprint.countOf "FunctionDef" + n.fingerprint.countOf "AsyncFunctionDef" := by
  rw [countOf_fingerprint, countOf_fingerprint, fingerprint_eq]
  rfl

theorem classCount_fingerprint (n : Node) :
    n.fingerprint.classCount = n.fingerprint.countOf "ClassDef" := by
  rw [countOf_fingerprint, fingerprint_eq]
  rfl

theorem importCount_fingerprint (n : Node) : n.fingerprint.importCount =
    n.fingerprint.countOf "Import" + n.fingerprint.countOf "ImportFrom" := by
  rw [countOf_fingerprint, countOf_fingerprint, fingerprint_eq]
  rfl

theorem complexityScore_fingerprint (n : Node) : n.fingerprint.complexityScore = Float.ofNat
    (2 * n.fingerprint.functionCount + 3 * n.fingerprint.classCount +
      n.fingerprint.countOf "If" + n.fingerprint.countOf "For" +
      n.fingerprint.countOf "While" + n.fingerprint.countOf "Try") := by
  simp only [countOf_fingerprint]
  rw [fingerprint_eq, Nat.mul_comm 2, Nat.mul_comm 3, Nat.add_assoc, Nat.add_assoc, Nat.add_assoc]
  rfl

/-- The type names of the nodes, each with the depth of the node. -/
def profile (n : Node) : Multiset (String × ℕ) :=
  n.rows.map fun r => (r.2.typeName, r.1)

theorem profile_eq_iff {m n : Node} : m.profile = n.profile ↔
    (m.rows.map fun r => (r.2.typeName, r.1)).Perm (n.rows.map fun r => (r.2.typeName, r.1)) :=
  Multiset.coe_eq_coe

theorem fingerprint_eq_of_profile_eq {m n : Node} (h : m.profile = n.profile) :
    m.fingerprint = n.fingerprint := by
  -- The depths alone tell the height, and the type names alone tell everything else.
  have hperm := profile_eq_iff.mp h
  have hdepths := hperm.map Prod.snd
  have htypes := hperm.map Prod.fst
  rw [List.map_map, List.map_map] at hdepths htypes
  have hheight : m.height = n.height :=
    (foldl_max_depths hdepths.symm).symm.trans (foldl_max_depths (.refl _))
  rw [fingerprint_eq, fingerprint_eq, hheight]
  refine Fingerprint.ofTypes_eq_of_perm ?_ n.height
  rwa [types, types, Rose.values, Rose.values, List.map_map, List.map_map]

theorem profile_eq_of_rearranged {m n : Node} (h : m.Rearranged n) : m.profile = n.profile :=
  profile_eq_iff.mpr ((h.rowsFrom_perm 0).map _)

/-- All walks over a tree agree with each other, and with the tree: its nodes are counted, its
height is measured, the counts of definitions, imports and control flow are those of their type
names, and the type names at each depth tell all of it. -/
theorem fingerprint_counts (n : Node) :
    n.size = Rose.size n ∧
    n.fingerprint.nodeCount = Rose.size n ∧
    n.fingerprint.histogram.values.sum = Rose.size n ∧
    n.fingerprint.maxDepth = n.height ∧
    (n.fingerprint.maxDepth = 0 ↔ n.children = []) ∧
    n.fingerprint.maxDepth < n.fingerprint.nodeCount ∧
    n.fingerprint.functionCount =
      n.fingerprint.countOf "FunctionDef" + n.fingerprint.countOf "AsyncFunctionDef" ∧
    n.fingerprint.classCount = n.fingerprint.countOf "ClassDef" ∧
    n.fingerprint.importCount =
      n.fingerprint.countOf "Import" + n.fingerprint.countOf "ImportFrom" ∧
    n.fingerprint.complexityScore = Float.ofNat
      (2 * n.fingerprint.functionCount + 3 * n.fingerprint.classCount +
        n.fingerprint.countOf "If" + n.fingerprint.countOf "For" +
        n.fingerprint.countOf "While" + n.fingerprint.countOf "Try") ∧
    (∀ m : Node, m.profile = n.profile → m.fingerprint = n.fingerprint) ∧
    ∀ m : Node, n.Rearranged m → m.fingerprint = n.fingerprint := by
  refine ⟨n.size_eq, n.nodeCount_fingerprint, ?_, n.maxDepth_fingerprint, ?_, ?_,
    n.functionCount_fingerprint, n.classCount_fingerprint, n.importCount_fingerprint,
    n.complexityScore_fingerprint, fun m h => fingerprint_eq_of_profile_eq h,
    fun m h => (fingerprint_eq_of_profile_eq (profile_eq_of_rearranged h)).symm⟩
  · rw [fingerprint_eq, ← length_types]
    exact Table.sum_values_tally n.types
  · rw [maxDepth_fingerprint]
    exact Rose.height_eq_zero_iff
  · rw [maxDepth_fingerprint, nodeCount_fingerprint]
    exact Rose.height_lt_size n

theorem fingerprint_counts_branches :
    let branch (body : List Node) : Node := .node .ifElse body
    let pass : Node := .node .pass []
    let n : Node := .node .module [branch [pass, pass], branch []]
    let swapped : Node := .node .module [branch [], branch [pass, pass]]
    let spread : Node := .node .module [branch [pass], branch [pass]]
    (n.Rearranged swapped ∧ swapped.fingerprint = n.fingerprint) ∧
      spread.profile = n.profile ∧ spread.fingerprint = n.fingerprint := by
  intro branch pass n swapped spread
  have hswapped : n.Rearranged swapped :=
    .node Kind.module (List.forall₂_same.mpr fun c _ => .refl c) (.swap _ _ [])
  have hspread : spread.profile = n.profile := by decide
  obtain ⟨-, -, -, -, -, -, -, -, -, -, hprofile, hrearranged⟩ := fingerprint_counts n
  exact ⟨⟨hswapped, hrearranged swapped hswapped⟩, hspread, hprofile spread hspread⟩

end Node

end RenderGate
