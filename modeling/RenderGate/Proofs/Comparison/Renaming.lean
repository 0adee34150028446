import RenderGate.Proofs.Comparison.Gate
import RenderGate.Proofs.Similarity.Composite
import RenderGate.Proofs.Similarity.Identity

/-!
# Renamed identifiers

Tokens and fingerprints do not show the names of variables, parameters, imports, keywords and
exception handlers.  Two trees that agree once these names are taken away have the same summary, and
a summary compared with itself has full similarity under every usable configuration.
-/

namespace RenderGate

namespace Rose

variable {α β : Type}

mutual

def map (f : α → β) : Rose α → Rose β
  | .node x cs => .node (f x) (forestMap f cs)

def forestMap (f : α → β) : List (Rose α) → List (Rose β)
  | [] => []
  | c :: cs => c.map f :: forestMap f cs

end

mutual

theorem rowsFrom_map (f : α → β) (d : ℕ) (t : Rose α) :
    (t.map f).rowsFrom d = (t.rowsFrom d).map fun r => (r.1, f r.2) :=
  match t with
  | .node x cs => by rw [map, rowsFrom, rowsFrom, forestRows_map f (d + 1) cs, List.map_cons]

theorem forestRows_map (f : α → β) (d : ℕ) (cs : List (Rose α)) :
    forestRows d (forestMap f cs) = (forestRows d cs).map fun r => (r.1, f r.2) :=
  match cs with
  | [] => rfl
  | c :: cs => by
      rw [forestMap, forestRows, forestRows, rowsFrom_map f d c, forestRows_map f d cs,
        List.map_append]

end

theorem values_map (f : α → β) (t : Rose α) : (t.map f).values = t.values.map f := by
  rw [values, rows, rowsFrom_map, values, rows, List.map_map, List.map_map]
  rfl

theorem map_fst_rows_map (f : α → β) (t : Rose α) :
    (t.map f).rows.map Prod.fst = t.rows.map Prod.fst := by
  rw [rows, rowsFrom_map, List.map_map]
  rfl

end Rose

/-- The kind without a name that can be renamed; the names of definitions and attributes stay. -/
def Kind.anonymous : Kind → Kind
  | .name _ => .name ""
  | .arg _ => .arg ""
  | .alias _ => .alias ""
  | .keyword _ => .keyword none
  | .exceptHandler _ => .exceptHandler none
  | k => k

namespace Node

def anonymous (n : Node) : Node := n.map Kind.anonymous

theorem tokens_anonymous (n : Node) : n.anonymous.tokens = n.tokens := by
  have hk : ∀ k : Kind, k.anonymous.tokens = k.tokens := fun k => by cases k <;> rfl
  rw [tokens_eq_flatMap, anonymous, Rose.values_map, List.flatMap_map, tokens_eq_flatMap]
  exact List.flatMap_congr fun k _ => hk k

theorem types_anonymous (n : Node) : n.anonymous.types = n.types := by
  have hname : Kind.typeName ∘ Kind.anonymous = Kind.typeName := funext fun k => by cases k <;> rfl
  rw [types, anonymous, Rose.values_map, List.map_map, hname, types]

theorem height_anonymous (n : Node) : n.anonymous.height = n.height := by
  refine eq_of_forall_ge_iff fun b => ?_
  rw [Rose.height_le_iff, Rose.height_le_iff, anonymous, Rose.map_fst_rows_map]

theorem fingerprint_anonymous (n : Node) : n.anonymous.fingerprint = n.fingerprint := by
  rw [fingerprint_eq, types_anonymous, height_anonymous, fingerprint_eq]

/-- Trees that differ in names only have the same summary. -/
theorem summary_eq {s t : Node} (h : s.anonymous = t.anonymous) : s.summary = t.summary := by
  have hf : s.fingerprint = t.fingerprint := by
    rw [← fingerprint_anonymous, h, fingerprint_anonymous]
  have ht : s.tokens = t.tokens := by
    rw [← tokens_anonymous, h, tokens_anonymous]
  rw [summary, summary, hf, ht]

end Node

namespace Engine

theorem commonTokens_self (tokens : List String) :
    commonTokens tokens tokens = Tokens.distinct tokens := by
  unfold commonTokens Tokens.distinct
  rw [List.filter_eq_self.mpr]
  intro t ht
  exact List.contains_iff_mem.mpr (List.mem_eraseDups.mp ht)

section trees

variable {engine : Engine} {x y : Artifact} {s t : Node}

theorem examine_eq_trees (hx : x.isBlank = false) (hy : y.isBlank = false)
    (hs : engine.parse x.content = .ok s) (ht : engine.parse y.content = .ok t)
    (hse : s.isEmpty = false) (hte : t.isEmpty = false) : engine.examine x y = .trees s t := by
  rw [examine_of_ok hx hy hs ht, hse, hte]
  rfl

theorem diagnostics_compare (h : engine.examine x y = .trees s t) :
    (engine.compare x y).diagnostics = .ofList (baseDiagnostics engine.config x.reference
      y.reference ++ (concludeTrees engine.config s t).diagnostics) := by
  show Table.ofList (_ ++ (conclude engine.config (engine.examine x y)).diagnostics) = _
  rw [h]
  rfl

theorem get?_unique_tokens_a (h : engine.examine x y = .trees s t) :
    (engine.compare x y).diagnostics.get? "unique_tokens_a" =
      some (.ofNat (Tokens.distinct s.tokens - commonTokens s.tokens t.tokens)) := by
  rw [diagnostics_compare h]
  refine Table.get?_ofList_append (_ :: _ :: _ :: _ :: _ :: _ :: _ :: _ :: [_]) _ _ _ ?_
  simp

theorem get?_unique_tokens_b (h : engine.examine x y = .trees s t) :
    (engine.compare x y).diagnostics.get? "unique_tokens_b" =
      some (.ofNat (Tokens.distinct t.tokens - commonTokens s.tokens t.tokens)) := by
  rw [diagnostics_compare h]
  refine Table.get?_ofList_append (_ :: _ :: _ :: _ :: _ :: _ :: _ :: _ :: _ :: [_]) _ _ _ ?_
  simp

theorem conclude_examine (h : engine.examine x y = .trees s t) :
    conclude engine.config (engine.examine x y) = concludeTrees engine.config s t := by
  rw [h]
  rfl

end trees

/-- The signals of two trees with one summary are 1, as long as the token text is no longer than a
machine word can tell. -/
theorem signals_concludeTrees {c : Config} {s t : Node} (h : s.summary = t.summary)
    (hsize : (Tokens.joined s.tokens).length < 2 ^ 64) :
    (concludeTrees c s t).signals = .uniform 1.0 := by
  have hlen := Tokens.length_le_length_joined s.ne_empty_of_mem_tokens
  have hnodes := s.size_le_length_tokens
  show (s.summary.assess t.summary).signals = _
  rw [← h]
  exact Summary.signals_assess_self (s.measurable_fingerprint (by omega)) (by
    show s.tokens.length < 2 ^ 64
    omega) hsize

/-- Two texts whose trees differ in the names of variables, parameters, imports, keywords and
handlers only are fully similar and pass.  The length of a token text is a machine word. -/
theorem compare_of_anonymous_eq (engine : Engine) {x y : Artifact} {s t : Node}
    (hx : x.isBlank = false) (hy : y.isBlank = false)
    (hs : engine.parse x.content = .ok s) (ht : engine.parse y.content = .ok t)
    (hse : s.isEmpty = false) (hte : t.isEmpty = false) (h : s.anonymous = t.anonymous)
    (hsize : (Tokens.joined s.tokens).length < 2 ^ 64) :
    s.tokens = t.tokens ∧ s.fingerprint = t.fingerprint ∧
      (engine.compare x y).signals.token = 1.0 ∧ (engine.compare x y).signals.edit = 1.0 ∧
      (engine.compare x y).signals.structural = 1.0 ∧ (engine.compare x y).similarity = 1.0 ∧
      (engine.compare x y).diagnostics.get? "unique_tokens_a" = some (.number (.int 0)) ∧
      (engine.compare x y).diagnostics.get? "unique_tokens_b" = some (.number (.int 0)) ∧
      (engine.compare x y).verdict.decision = .pass ∧
      (engine.compare x y).verdict.route = .nowhere := by
  have hsummary := Node.summary_eq h
  have htokens : s.tokens = t.tokens := congrArg Summary.tokens hsummary
  have hfound := examine_eq_trees hx hy hs ht hse hte
  have hconclude := conclude_examine hfound
  have hsignals := signals_concludeTrees (c := engine.config) hsummary hsize
  have hsimilarity : (concludeTrees engine.config s t).similarity = 1.0 := by
    show engine.config.weights.composite (concludeTrees engine.config s t).signals = 1.0
    rw [hsignals]
    exact Weights.composite_uniform_one (Config.weights_of_usable engine.usable)
  have hverdict : (concludeTrees engine.config s t).verdict = .pass := by
    obtain ⟨h₀, h₁⟩ := Config.bounds_of_usable engine.usable
    show Verdict.ofSimilarity _ (concludeTrees engine.config s t).similarity = _
    rw [hsimilarity]
    exact Verdict.ofSimilarity_one h₀ h₁
  have hall : (engine.compare x y).signals = .uniform 1.0 :=
    (congrArg Conclusion.signals hconclude).trans hsignals
  have hpass : (engine.compare x y).verdict = .pass :=
    (congrArg Conclusion.verdict hconclude).trans hverdict
  refine ⟨htokens, congrArg Summary.fingerprint hsummary, congrArg Signals.token hall,
    congrArg Signals.edit hall, congrArg Signals.structural hall,
    (congrArg Conclusion.similarity hconclude).trans hsimilarity, ?_, ?_,
    congrArg Verdict.decision hpass, congrArg Verdict.route hpass⟩
  · rw [get?_unique_tokens_a hfound, ← htokens, commonTokens_self, Nat.sub_self]
    rfl
  · rw [get?_unique_tokens_b hfound, ← htokens, commonTokens_self, Nat.sub_self]
    rfl

/-- Two texts of one name each, which is read as a variable. -/
theorem compare_of_anonymous_eq_names :
    let engine : Engine := .standard fun text => .ok (.of .module [.of .expr [.leaf (.name text)]])
    let s : Node := .of .module [.of .expr [.leaf (.name "x")]]
    let t : Node := .of .module [.of .expr [.leaf (.name "y")]]
    let o := engine.compare ⟨.a, none, "x"⟩ ⟨.b, none, "y"⟩
    s.tokens = t.tokens ∧ s.fingerprint = t.fingerprint ∧ o.signals.token = 1.0 ∧
      o.signals.edit = 1.0 ∧ o.signals.structural = 1.0 ∧ o.similarity = 1.0 ∧
      o.diagnostics.get? "unique_tokens_a" = some (.number (.int 0)) ∧
      o.diagnostics.get? "unique_tokens_b" = some (.number (.int 0)) ∧
      o.verdict.decision = .pass ∧ o.verdict.route = .nowhere := by
  intro engine s t o
  exact compare_of_anonymous_eq engine (by decide) (by decide) rfl rfl rfl rfl rfl
    (by rw [Node.tokens_eq_flatMap]; decide)

end Engine

end RenderGate
