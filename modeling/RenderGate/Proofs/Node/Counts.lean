import RenderGate.Proofs.Double.Exact
import RenderGate.Proofs.Node.Tokens

/-!
# The size of what is counted

Every count that a fingerprint holds is at most a few times the number of nodes, and every node
shows in the token text.  So where the token text has fewer than `2 ^ 64` characters, all counts are
finite doubles.
-/

namespace RenderGate

/-- Everything that a fingerprint counts is a finite double, and not too many types occur. -/
structure Fingerprint.Measurable (f : Fingerprint) : Prop where
  scalar : ∀ m ∈ f.scalarMetrics, m.2.isFinite = true
  count : ∀ key, (Float.ofNat (f.countOf key)).isFinite = true
  types : f.histogram.keys.length ≤ 2 ^ 53

namespace Node

theorem isFinite_ofNat {k : ℕ} (h : k ≤ 2 ^ 128) : (Float.ofNat k).isFinite = true :=
  (Double.nearest_ofNat (Double.natCast_le_largest h)).finite

theorem types_fingerprint (n : Node) : n.fingerprint.histogram.keys ⊆ Kind.typeNames := by
  intro key hkey
  rw [fingerprint_eq] at hkey
  obtain ⟨k, -, rfl⟩ := List.mem_map.mp (Table.mem_keys_tally.mp hkey)
  exact k.typeName_mem_typeNames

theorem countOf_fingerprint_le (n : Node) (key : String) : n.fingerprint.countOf key ≤ n.size := by
  rw [countOf_fingerprint, size_eq, ← length_types]
  exact List.count_le_length

/-- The metrics that are numbers are the doubles of counts. -/
theorem exists_eq_ofNat_of_mem_scalarMetrics {n : Node} (h : n.size ≤ 2 ^ 64) {m : String × Float}
    (hm : m ∈ n.fingerprint.scalarMetrics) : ∃ k ≤ 2 ^ 128, m.2 = Float.ofNat k := by
  have hcount (key : String) : n.fingerprint.countOf key ≤ 2 ^ 64 :=
    (n.countOf_fingerprint_le key).trans h
  have hnodes : n.fingerprint.nodeCount ≤ 2 ^ 64 := by
    rwa [nodeCount_fingerprint, ← size_eq]
  have hdepth : n.fingerprint.maxDepth < n.fingerprint.nodeCount := by
    rw [maxDepth_fingerprint, nodeCount_fingerprint]
    exact Rose.height_lt_size n
  have hfunctions : n.fingerprint.functionCount ≤ 2 ^ 64 + 2 ^ 64 :=
    n.functionCount_fingerprint ▸ Nat.add_le_add (hcount _) (hcount _)
  have hclasses : n.fingerprint.classCount ≤ 2 ^ 64 := n.classCount_fingerprint ▸ hcount _
  have himports : n.fingerprint.importCount ≤ 2 ^ 64 + 2 ^ 64 :=
    n.importCount_fingerprint ▸ Nat.add_le_add (hcount _) (hcount _)
  simp only [Fingerprint.scalarMetrics, List.mem_cons, List.not_mem_nil, or_false] at hm
  rcases hm with rfl | rfl | rfl | rfl | rfl | rfl
  · exact ⟨n.fingerprint.nodeCount, by omega, rfl⟩
  · exact ⟨n.fingerprint.maxDepth, by omega, rfl⟩
  · exact ⟨n.fingerprint.functionCount, by omega, rfl⟩
  · exact ⟨n.fingerprint.classCount, by omega, rfl⟩
  · exact ⟨n.fingerprint.importCount, by omega, rfl⟩
  · refine ⟨_, ?_, n.complexityScore_fingerprint⟩
    have hif := hcount "If"
    have hfor := hcount "For"
    have hwhile := hcount "While"
    have htry := hcount "Try"
    omega

theorem length_keys_histogram_le (n : Node) : n.fingerprint.histogram.keys.length ≤ 2 ^ 52 :=
  (List.subperm_of_subset (Table.nodup_keys _) n.types_fingerprint).length_le.trans
    (by decide +kernel)

theorem measurable_fingerprint {n : Node} (h : n.size ≤ 2 ^ 64) : n.fingerprint.Measurable := by
  refine ⟨fun m hm => ?_, fun key => ?_, ?_⟩
  · obtain ⟨k, hk, hmk⟩ := exists_eq_ofNat_of_mem_scalarMetrics h hm
    rw [hmk]
    exact isFinite_ofNat hk
  · have hcount := n.countOf_fingerprint_le key
    exact isFinite_ofNat (by omega)
  · have htypes := n.length_keys_histogram_le
    omega

end Node

namespace Tokens

/-- Every token takes its place in the text. -/
theorem length_le_length_joined {tokens : List String} (h : ∀ t ∈ tokens, t ≠ "") :
    tokens.length ≤ (joined tokens).length := by
  induction tokens with
  | nil => exact Nat.zero_le _
  | cons t ts ih =>
      have ht : 0 < t.length := by
        rw [Nat.pos_iff_ne_zero]
        exact fun h₀ => h t List.mem_cons_self (String.length_eq_zero_iff.mp h₀)
      have hts := ih fun u hu => h u (List.mem_cons_of_mem t hu)
      cases ts with
      | nil =>
          rw [joined, String.intercalate_singleton]
          exact ht
      | cons u us =>
          rw [joined] at hts ⊢
          rw [String.intercalate_cons_cons, String.length_append, String.length_append]
          rw [List.length_cons]
          omega

end Tokens

namespace Node

theorem ne_empty_of_mem_tokens {n : Node} : ∀ t ∈ n.tokens, t ≠ "" := by
  intro t ht
  rw [tokens_eq_flatMap] at ht
  obtain ⟨k, -, hk⟩ := List.mem_flatMap.mp ht
  rcases List.mem_cons.mp hk with rfl | hk
  · exact k.typeName_ne_empty
  · intro h₀
    rw [h₀] at hk
    cases k <;> simp [Kind.nameToken] at hk

theorem size_le_length_tokens (n : Node) : n.size ≤ n.tokens.length := by
  rw [tokens_eq_flatMap, length_flatMap_tokens, Rose.length_values, size_eq]
  exact Nat.le_add_right _ _

end Node

end RenderGate
