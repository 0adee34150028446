import RenderGate.Proofs.Comparison.Gate
import RenderGate.Proofs.Similarity.Range

/-!
# The measures of a comparison

Whatever two texts turn out to be, similarity, signals and distance of the outcome are numbers
between 0 and 1.  Where nothing is scored they are 0 or 1 themselves; two trees have signals between
0 and 1, which usable weights join to a similarity between 0 and 1.
-/

namespace RenderGate

open Double

def Outcome.measures (o : Outcome) : List Float :=
  [o.similarity, o.signals.token, o.signals.edit, o.signals.structural, o.distance]

structure Conclusion.InRange (c : Conclusion) : Prop where
  similarity : Proportion c.similarity
  signals : c.signals.InRange

namespace Engine

variable {engine : Engine} {x y : Artifact}

/-- The length of the token text of the tree, if the text has one, is a machine word. -/
def Sized (engine : Engine) (x : Artifact) : Prop :=
  ∀ t, engine.parse x.content = .ok t → (Tokens.joined t.tokens).length < 2 ^ 64

/-- Trees are found only where both texts parse. -/
theorem parse_of_examine_eq_trees {s t : Node} (h : engine.examine x y = .trees s t) :
    engine.parse x.content = .ok s ∧ engine.parse y.content = .ok t := by
  rcases engine.examine_cases x y with ⟨h', -⟩ | ⟨label, h', -⟩ | ⟨labels, reason, h', -⟩ |
    ⟨s', t', h', -, -, hs, ht⟩ <;> rw [h'] at h
  · exact Findings.noConfusion h
  · exact Findings.noConfusion h
  · exact Findings.noConfusion h
  · obtain ⟨rfl, rfl⟩ := Findings.trees.inj h
    exact ⟨hs, ht⟩

theorem inRange_concludeEmpty (emptiness : Emptiness) : (concludeEmpty emptiness).InRange := by
  cases emptiness with
  | both => exact ⟨proportion_one, Signals.inRange_uniform proportion_one⟩
  | only label => exact ⟨proportion_zero, Signals.inRange_uniform proportion_zero⟩

theorem inRange_concludeTrees {c : Config} (hc : c.fault? = none) {s t : Node}
    (hs : (Tokens.joined s.tokens).length < 2 ^ 64)
    (ht : (Tokens.joined t.tokens).length < 2 ^ 64) : (concludeTrees c s t).InRange :=
  have hsignals := Node.inRange_assess hs ht
  ⟨Weights.proportion_composite (Config.weights_of_usable hc) hsignals, hsignals⟩

theorem inRange_conclude (hx : engine.Sized x) (hy : engine.Sized y) :
    (conclude engine.config (engine.examine x y)).InRange := by
  cases h : engine.examine x y with
  | empty emptiness => exact inRange_concludeEmpty emptiness
  | unparsed errors => exact ⟨proportion_zero, Signals.inRange_uniform proportion_zero⟩
  | trees s t =>
      obtain ⟨hs, ht⟩ := parse_of_examine_eq_trees h
      exact inRange_concludeTrees engine.usable (hx s hs) (hy t ht)

/-- All measures of an outcome are numbers between 0 and 1, and the distance is the double nearest
to what the similarity leaves of 1. -/
theorem compare_inRange (engine : Engine) {x y : Artifact} (hx : engine.Sized x)
    (hy : engine.Sized y) :
    (∀ v ∈ (engine.compare x y).measures, v.isNaN = false ∧ 0.0 ≤ v ∧ v ≤ 1.0) ∧
      (engine.compare x y).distance = 1.0 - (engine.compare x y).similarity ∧
      Nearest (1 - rat (engine.compare x y).similarity) (engine.compare x y).distance := by
  obtain ⟨hsimilarity, hsignals⟩ := inRange_conclude hx hy
  have hall : ∀ v ∈ (engine.compare x y).measures, Proportion v := by
    intro v hv
    simp only [Outcome.measures, List.mem_cons, List.not_mem_nil, or_false] at hv
    rcases hv with rfl | rfl | rfl | rfl | rfl
    · exact hsimilarity
    · exact hsignals.token
    · exact hsignals.edit
    · exact hsignals.structural
    · exact hsimilarity.one_sub
  exact ⟨fun v hv => ⟨(hall v hv).isNaN, (hall v hv).nonneg, (hall v hv).le_one⟩, rfl,
    hsimilarity.nearest_one_sub⟩

theorem compare_inRange_names :
    let engine : Engine := .standard fun text => .ok (.of .module [.of .expr [.leaf (.name text)]])
    (engine.compare ⟨.a, none, "x"⟩ ⟨.b, none, "y = 1"⟩).similarity ≤ 1.0 := by
  have hall := compare_inRange
    (.standard fun text => .ok (.of .module [.of .expr [.leaf (.name text)]]))
    (x := ⟨.a, none, "x"⟩) (y := ⟨.b, none, "y = 1"⟩)
    (fun t ht => by rw [← Except.ok.inj ht, Node.tokens_eq_flatMap]; decide)
    (fun t ht => by rw [← Except.ok.inj ht, Node.tokens_eq_flatMap]; decide)
  exact (hall.1 _ List.mem_cons_self).2.2

end Engine

end RenderGate
