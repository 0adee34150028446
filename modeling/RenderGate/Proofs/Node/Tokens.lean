import RenderGate.Node.Tokens
import RenderGate.Proofs.Node.Census
import Mathlib.Data.List.Flatten

/-!
# Tokens and fingerprints

The walk that writes the tokens takes the nodes in pre-order.  A token is either the type name of a
node or shows what the node is called, and only the latter have a colon in them.  So the tokens tell
how often each type occurs, and with it all of the fingerprint except how deep the tree is.
-/

namespace RenderGate

namespace Kind

def typeNames : List String :=
  plain.map typeName ++ ExprContext.all.map ExprContext.name ++ Operator.all.map Operator.name ++
    ["FunctionDef", "AsyncFunctionDef", "ClassDef", "Attribute", "Name", "arg", "keyword", "alias",
      "ExceptHandler"]

theorem typeName_mem_typeNames (k : Kind) : k.typeName ∈ typeNames := by
  have hplain : ∀ k ∈ plain, k.typeName ∈ typeNames := fun k hk => List.mem_append_left _
    (List.mem_append_left _ (List.mem_append_left _ (List.mem_map_of_mem hk)))
  cases k with
  | context c =>
      refine List.mem_append_left _ (List.mem_append_left _ (List.mem_append_right _ ?_))
      exact List.mem_map_of_mem (f := ExprContext.name) (by cases c <;> decide)
  | op o =>
      refine List.mem_append_left _ (List.mem_append_right _ ?_)
      exact List.mem_map_of_mem (f := Operator.name) (by cases o <;> decide)
  | functionDef | asyncFunctionDef | classDef | «attribute» | name | arg | keyword | «alias»
  | exceptHandler =>
      exact List.mem_append_right _ (List.contains_iff_mem.mp rfl)
  | _ => exact hplain _ (by decide)

theorem typeName_ne_empty (k : Kind) : k.typeName ≠ "" := by
  have h : ∀ name ∈ typeNames, name ≠ "" := by decide +kernel
  exact h _ k.typeName_mem_typeNames

theorem colon_not_mem_typeName (k : Kind) : ':' ∉ k.typeName.toList := by
  have h : ∀ name ∈ typeNames, ':' ∉ name.toList := by decide +kernel
  exact h _ k.typeName_mem_typeNames

theorem colon_mem_nameToken {k : Kind} {token : String} (h : k.nameToken = some token) :
    ':' ∈ token.toList := by
  cases k <;> simp [nameToken] at h <;> subst h <;> simp [String.toList_append]

/-- Whatever a node is called, its name is not taken for a type name. -/
theorem nameToken_ne_typeName {k : Kind} (j : Kind) {token : String}
    (h : k.nameToken = some token) : token ≠ j.typeName :=
  fun heq => j.colon_not_mem_typeName (heq ▸ colon_mem_nameToken h)

theorem count_typeName_tokens (k j : Kind) :
    k.tokens.count j.typeName = if k.typeName = j.typeName then 1 else 0 := by
  have hname : k.nameToken.toList.count j.typeName = 0 :=
    List.count_eq_zero_of_not_mem fun hmem =>
      nameToken_ne_typeName j (Option.mem_toList.mp hmem) rfl
  rw [tokens, List.count_cons, hname, Nat.zero_add]
  simp only [beq_iff_eq]

theorem length_tokens (k : Kind) :
    k.tokens.length = 1 + if k.nameToken.isSome then 1 else 0 := by
  rw [tokens, List.length_cons, Nat.add_comm]
  cases k.nameToken <;> rfl

end Kind

namespace Node

mutual

/-- The tokens of the root, and then those of the children from left to right. -/
def linear : Node → List String
  | .node kind children => kind.tokens ++ forestLinear children

def forestLinear : List Node → List String
  | [] => []
  | c :: cs => c.linear ++ forestLinear cs

end

mutual

theorem linear_eq_flatMap (n : Node) : n.linear = n.values.flatMap Kind.tokens :=
  match n with
  | .node kind children => by
      rw [linear, forestLinear_eq_flatMap children, Rose.values_node, List.flatMap_cons]

theorem forestLinear_eq_flatMap (cs : List Node) :
    forestLinear cs = (cs.flatMap Rose.values).flatMap Kind.tokens :=
  match cs with
  | [] => rfl
  | c :: cs => by
      rw [forestLinear, linear_eq_flatMap c, forestLinear_eq_flatMap cs, List.flatMap_cons,
        List.flatMap_append]

end

theorem toList_foldl_tokens (rows : List (ℕ × Kind)) (out : Array String) :
    (rows.foldl (fun out r => out ++ r.2.tokens) out).toList =
      out.toList ++ (rows.map Prod.snd).flatMap Kind.tokens := by
  induction rows generalizing out with
  | nil => exact (List.append_nil _).symm
  | cons r rows ih =>
      rw [List.foldl_cons, ih, Array.toList_appendList, List.map_cons, List.flatMap_cons,
        List.append_assoc]

theorem tokens_eq_flatMap (n : Node) : n.tokens = n.values.flatMap Kind.tokens := by
  rw [tokens, Rose.walk_rightward, toList_foldl_tokens]
  rfl

theorem count_typeName_flatMap_tokens (kinds : List Kind) (k : Kind) :
    (kinds.flatMap Kind.tokens).count k.typeName =
      (kinds.map Kind.typeName).count k.typeName := by
  induction kinds with
  | nil => rfl
  | cons j kinds ih =>
      rw [List.flatMap_cons, List.count_append, ih, Kind.count_typeName_tokens, List.map_cons,
        List.count_cons, Nat.add_comm]
      simp only [beq_iff_eq]

theorem length_flatMap_tokens (kinds : List Kind) : (kinds.flatMap Kind.tokens).length =
    kinds.length + kinds.countP fun k => k.nameToken.isSome := by
  induction kinds with
  | nil => rfl
  | cons k kinds ih =>
      rw [List.flatMap_cons, List.length_append, ih, List.length_cons, List.countP_cons,
        Kind.length_tokens]
      omega

theorem count_typeName_tokens (n : Node) (k : Kind) :
    n.tokens.count k.typeName = n.types.count k.typeName := by
  rw [tokens_eq_flatMap, count_typeName_flatMap_tokens]
  rfl

/-- Trees with the same tokens have nodes of the same types. -/
theorem types_perm_of_tokens_eq {m n : Node} (h : m.tokens = n.tokens) :
    m.types.Perm n.types := by
  refine List.perm_iff_count.mpr fun name => ?_
  by_cases hname : ∃ k : Kind, k.typeName = name
  · obtain ⟨k, rfl⟩ := hname
    rw [← count_typeName_tokens, h, count_typeName_tokens]
  · -- What is no type name is not the type name of a node.
    have hzero : ∀ n : Node, n.types.count name = 0 := fun n =>
      List.count_eq_zero_of_not_mem fun hmem =>
        hname ((List.mem_map.mp hmem).imp fun _ hk => hk.2)
    rw [hzero, hzero]

theorem fingerprint_eq_of_tokens_eq {m n : Node} (h : m.tokens = n.tokens) :
    m.fingerprint = { n.fingerprint with maxDepth := m.fingerprint.maxDepth } := by
  rw [maxDepth_fingerprint, fingerprint_eq, fingerprint_eq,
    Fingerprint.ofTypes_eq_of_perm (types_perm_of_tokens_eq h)]
  rfl

/-- The tokens of a tree are those of its nodes in pre-order.  Among them each type name stands as
often as the fingerprint counts it, and besides them each named node shows its name.  Trees with
the same tokens have the same fingerprint but for the depth. -/
theorem tokens_linear (n : Node) :
    n.tokens = n.linear ∧
    (∀ k : Kind, n.tokens.count k.typeName = n.fingerprint.countOf k.typeName) ∧
    n.tokens.length =
      n.fingerprint.nodeCount + n.values.countP (fun k => k.nameToken.isSome) ∧
    ∀ m : Node, m.tokens = n.tokens →
      m.fingerprint = { n.fingerprint with maxDepth := m.fingerprint.maxDepth } := by
  refine ⟨?_, fun k => ?_, ?_, fun m => fingerprint_eq_of_tokens_eq⟩
  · rw [tokens_eq_flatMap, linear_eq_flatMap]
  · rw [count_typeName_tokens, countOf_fingerprint]
  · rw [tokens_eq_flatMap, length_flatMap_tokens, Rose.length_values, nodeCount_fingerprint]

/-- A module of two classes, the second one beside the first one or within it. -/
def twoClasses (within : Bool) : Node :=
  let second := of (.classDef "B") [.leaf .pass]
  if within then of .module [of (.classDef "A") [.leaf .pass, second]]
  else of .module [of (.classDef "A") [.leaf .pass], second]

theorem tokens_linear_twoClasses :
    let m := twoClasses true
    let n := twoClasses false
    m.tokens = n.tokens ∧ m.fingerprint.maxDepth ≠ n.fingerprint.maxDepth ∧
      m.fingerprint = { n.fingerprint with maxDepth := m.fingerprint.maxDepth } := by
  intro m n
  have htokens : m.tokens = n.tokens := by
    rw [tokens_eq_flatMap, tokens_eq_flatMap]
    decide +kernel
  have hdepth : m.fingerprint.maxDepth ≠ n.fingerprint.maxDepth := by
    rw [maxDepth_fingerprint, maxDepth_fingerprint]
    decide
  exact ⟨htokens, hdepth, (tokens_linear n).2.2.2 m htokens⟩

end Node

end RenderGate
