import RenderGate.Engine

/-!
# What the texts turn out to be

A comparison ends early where a text is blank, where one cannot be parsed, or where a tree has no
statements, and only otherwise are trees scored (`examine_cases`).  Blank texts are looked for
first.  So two artifacts without code agree if both are blank or neither is, but a blank text does
not agree with a text that holds comments only.
-/

namespace RenderGate

namespace Engine

variable {engine : Engine} {x y : Artifact}

theorem examine_of_detect {emptiness : Emptiness}
    (h : Emptiness.detect? x.isBlank y.isBlank = some emptiness) :
    engine.examine x y = .empty emptiness := by
  simp only [examine, h]

theorem examine_of_error (hx : x.isBlank = false) (hy : y.isBlank = false)
    (h : (∃ e, engine.parse x.content = .error e) ∨ ∃ e, engine.parse y.content = .error e) :
    engine.examine x y = .unparsed
      (errorOf .a (engine.parse x.content) ++ errorOf .b (engine.parse y.content)) := by
  simp only [examine, hx, hy, Emptiness.detect?]
  rcases h with ⟨e, he⟩ | ⟨e, he⟩
  · rw [he]
  · rw [he]
    cases engine.parse x.content with
    | error d => rfl
    | ok s => rfl

theorem examine_of_ok {s t : Node} (hx : x.isBlank = false) (hy : y.isBlank = false)
    (hs : engine.parse x.content = .ok s) (ht : engine.parse y.content = .ok t) :
    engine.examine x y =
      match Emptiness.detect? s.isEmpty t.isEmpty with
      | some emptiness => .empty emptiness
      | none => .trees s t := by
  unfold examine
  rw [hx, hy, hs, ht]
  rfl

theorem examine_of_blank_ne (engine : Engine) (h : x.isBlank ≠ y.isBlank) :
    ∃ label, engine.examine x y = .empty (.only label) := by
  cases hx : x.isBlank with
  | true =>
      have hy : y.isBlank = false := by
        cases hy : y.isBlank with
        | true => exact absurd (hx.trans hy.symm) h
        | false => rfl
      exact ⟨.a, examine_of_detect (by rw [hx, hy]; rfl)⟩
  | false =>
      have hy : y.isBlank = true := by
        cases hy : y.isBlank with
        | true => rfl
        | false => exact absurd (hx.trans hy.symm) h
      exact ⟨.b, examine_of_detect (by rw [hx, hy]; rfl)⟩

def standard (parse : String → Except ParseError Node) : Engine :=
  ⟨.standard, by decide +kernel, parse⟩

/-- The text is blank, or it parses to a module without statements. -/
def CodeFree (engine : Engine) (x : Artifact) : Prop :=
  x.isBlank = true ∨ ∃ t, engine.parse x.content = .ok t ∧ t.isEmpty = true

/-- The text is not blank and parses to a module with statements. -/
def HoldsCode (engine : Engine) (x : Artifact) : Prop :=
  x.isBlank = false ∧ ∃ t, engine.parse x.content = .ok t ∧ t.isEmpty = false

/-- What belongs to a side, of what belongs to the first and what to the second. -/
def side {α : Type} (x y : α) : Label → α
  | .a => x
  | .b => y

/-- What the texts turn out to be tells which sides hold no code, which cannot be parsed, and which
trees they have. -/
theorem examine_cases (engine : Engine) (x y : Artifact) :
    (engine.examine x y = .empty .both ∧ engine.CodeFree x ∧ engine.CodeFree y) ∨
    (∃ label, engine.examine x y = .empty (.only label) ∧ engine.CodeFree (side x y label)) ∨
    (∃ (labels : List Label) (reason : Label → ParseError),
      engine.examine x y = .unparsed (labels.map fun label => (label, reason label)) ∧
      labels ∈ [[Label.a], [.b], [.a, .b]] ∧
      ∀ label, if label ∈ labels then engine.parse (side x y label).content = .error (reason label)
        else ∃ t, engine.parse (side x y label).content = .ok t) ∨
    ∃ s t, engine.examine x y = .trees s t ∧ x.isBlank = false ∧ y.isBlank = false ∧
      engine.parse x.content = .ok s ∧ engine.parse y.content = .ok t := by
  cases hx : x.isBlank
  case true =>
    cases hy : y.isBlank
    case true => exact .inl ⟨examine_of_detect (by rw [hx, hy]; rfl), .inl hx, .inl hy⟩
    case false => exact .inr (.inl ⟨.a, examine_of_detect (by rw [hx, hy]; rfl), .inl hx⟩)
  cases hy : y.isBlank
  case true => exact .inr (.inl ⟨.b, examine_of_detect (by rw [hx, hy]; rfl), .inl hy⟩)
  cases hs : engine.parse x.content with
  | error d =>
      have hunparsed := examine_of_error hx hy (.inl ⟨d, hs⟩)
      refine .inr (.inr (.inl ?_))
      cases ht : engine.parse y.content with
      | error e =>
          refine ⟨[.a, .b], fun | .a => d | .b => e, ?_, by decide, fun label => ?_⟩
          · rw [hunparsed, hs, ht]
            rfl
          · cases label
            · exact hs
            · exact ht
      | ok t =>
          refine ⟨[.a], fun _ => d, ?_, by decide, fun label => ?_⟩
          · rw [hunparsed, hs, ht]
            rfl
          · cases label
            · exact hs
            · exact ⟨t, ht⟩
  | ok s =>
      cases ht : engine.parse y.content with
      | error e =>
          refine .inr (.inr (.inl ⟨[.b], fun _ => e, ?_, by decide, fun label => ?_⟩))
          · rw [examine_of_error hx hy (.inr ⟨e, ht⟩), hs, ht]
            rfl
          · cases label
            · exact ⟨s, hs⟩
            · exact ht
      | ok t =>
          have hok := examine_of_ok hx hy hs ht
          cases hse : s.isEmpty <;> cases hte : t.isEmpty <;> rw [hse, hte] at hok
          case false.false => exact .inr (.inr (.inr ⟨s, t, hok, rfl, rfl, rfl, rfl⟩))
          case false.true => exact .inr (.inl ⟨.b, hok, .inr ⟨t, ht, hte⟩⟩)
          case true.false => exact .inr (.inl ⟨.a, hok, .inr ⟨s, hs, hse⟩⟩)
          case true.true => exact .inl ⟨hok, .inr ⟨s, hs, hse⟩, .inr ⟨t, ht, hte⟩⟩

/-- The outcome of a pair that agrees without being scored. -/
structure Agrees (o : Outcome) : Prop where
  similarity : o.similarity = 1.0
  token : o.signals.token = 1.0
  edit : o.signals.edit = 1.0
  structural : o.signals.structural = 1.0
  decision : o.verdict.decision = .pass
  route : o.verdict.route = .nowhere

/-- The outcome of a pair that does not agree and is not scored. -/
structure Disagrees (o : Outcome) : Prop where
  similarity : o.similarity = 0.0
  token : o.signals.token = 0.0
  edit : o.signals.edit = 0.0
  structural : o.signals.structural = 0.0
  decision : o.verdict.decision = .fail
  route : o.verdict.route = .audit

theorem agrees_of_examine (h : engine.examine x y = .empty .both) :
    Agrees (engine.compare x y) := by
  have hc := congrArg (conclude engine.config) h
  have hsignals := congrArg Conclusion.signals hc
  have hverdict := congrArg Conclusion.verdict hc
  exact ⟨congrArg Conclusion.similarity hc, congrArg Signals.token hsignals,
    congrArg Signals.edit hsignals, congrArg Signals.structural hsignals,
    congrArg Verdict.decision hverdict, congrArg Verdict.route hverdict⟩

/-- No similarity in any signal and a failed verdict make a disagreement, whatever was found. -/
theorem disagrees_of_conclude {c : Conclusion}
    (hc : conclude engine.config (engine.examine x y) = c) (hsimilarity : c.similarity = 0.0)
    (hsignals : c.signals = .uniform 0.0) (hverdict : c.verdict = .fail) :
    Disagrees (engine.compare x y) := by
  subst hc
  exact ⟨hsimilarity, congrArg Signals.token hsignals, congrArg Signals.edit hsignals,
    congrArg Signals.structural hsignals, congrArg Verdict.decision hverdict,
    congrArg Verdict.route hverdict⟩

theorem disagrees_of_examine_only {label : Label}
    (h : engine.examine x y = .empty (.only label)) : Disagrees (engine.compare x y) :=
  disagrees_of_conclude (congrArg (conclude engine.config) h) rfl rfl rfl

theorem disagrees_of_examine_unparsed {errors : List (Label × ParseError)}
    (h : engine.examine x y = .unparsed errors) : Disagrees (engine.compare x y) :=
  disagrees_of_conclude (congrArg (conclude engine.config) h) rfl rfl rfl

theorem disagrees_of_blank_ne (engine : Engine) (h : x.isBlank ≠ y.isBlank) :
    Disagrees (engine.compare x y) := by
  obtain ⟨label, he⟩ := examine_of_blank_ne engine h
  exact disagrees_of_examine_only he

theorem CodeFree.parses (h : engine.CodeFree x) (hx : x.isBlank = false) :
    ∃ t, engine.parse x.content = .ok t ∧ t.isEmpty = true :=
  h.resolve_left (by rw [hx]; exact Bool.false_ne_true)

/-- Artifacts without code agree unless exactly one of the texts is blank, and an artifact without
code does not agree with one that holds code. -/
theorem compare_codeFree (engine : Engine) (x y : Artifact) :
    (engine.CodeFree x → engine.CodeFree y → x.isBlank = y.isBlank →
      Agrees (engine.compare x y)) ∧
    (x.isBlank ≠ y.isBlank → Disagrees (engine.compare x y)) ∧
    (engine.CodeFree x → engine.HoldsCode y → Disagrees (engine.compare x y)) ∧
    (engine.HoldsCode x → engine.CodeFree y → Disagrees (engine.compare x y)) := by
  refine ⟨fun hx hy hb => ?_, disagrees_of_blank_ne engine, fun hx hy => ?_, fun hx hy => ?_⟩
  · cases hxb : x.isBlank with
    | true => exact agrees_of_examine (examine_of_detect (by rw [← hb, hxb]; rfl))
    | false =>
        have hyb : y.isBlank = false := hb ▸ hxb
        obtain ⟨s, hs, hse⟩ := hx.parses hxb
        obtain ⟨t, ht, hte⟩ := hy.parses hyb
        exact agrees_of_examine (by rw [examine_of_ok hxb hyb hs ht, hse, hte]; rfl)
  · obtain ⟨hyb, t, ht, hte⟩ := hy
    by_cases hxb : x.isBlank = y.isBlank
    · rw [hyb] at hxb
      obtain ⟨s, hs, hse⟩ := hx.parses hxb
      have he : engine.examine x y = .empty (.only .a) := by
        rw [examine_of_ok hxb hyb hs ht, hse, hte]
        rfl
      exact disagrees_of_examine_only he
    · exact disagrees_of_blank_ne engine hxb
  · obtain ⟨hxb, s, hs, hse⟩ := hx
    by_cases hyb : x.isBlank = y.isBlank
    · rw [hxb] at hyb
      obtain ⟨t, ht, hte⟩ := hy.parses hyb.symm
      have he : engine.examine x y = .empty (.only .b) := by
        rw [examine_of_ok hxb hyb.symm hs ht, hse, hte]
        rfl
      exact disagrees_of_examine_only he
    · exact disagrees_of_blank_ne engine hyb

theorem compare_codeFree_comments :
    let engine : Engine := .standard fun text =>
      .ok (if text = "pass" then .of .module [.leaf .pass] else .leaf .module)
    Agrees (engine.compare ⟨.a, none, "# a"⟩ ⟨.b, none, "# b"⟩) ∧
      Agrees (engine.compare ⟨.a, none, ""⟩ ⟨.b, none, " "⟩) ∧
      Disagrees (engine.compare ⟨.a, none, ""⟩ ⟨.b, none, "# b"⟩) ∧
      Disagrees (engine.compare ⟨.a, none, "# a"⟩ ⟨.b, none, "pass"⟩) ∧
      Disagrees (engine.compare ⟨.a, none, "pass"⟩ ⟨.b, none, ""⟩) := by
  refine ⟨?_, ?_, ?_, ?_, ?_⟩
  · exact (compare_codeFree _ _ _).1 (.inr ⟨_, rfl, rfl⟩) (.inr ⟨_, rfl, rfl⟩) (by decide)
  · exact (compare_codeFree _ _ _).1 (.inl (by decide)) (.inl (by decide)) (by decide)
  · exact (compare_codeFree _ _ _).2.1 (by decide)
  · exact (compare_codeFree _ _ _).2.2.1 (.inr ⟨_, rfl, rfl⟩) ⟨by decide, _, rfl, rfl⟩
  · exact (compare_codeFree _ _ _).2.2.2 ⟨by decide, _, rfl, rfl⟩ (.inl (by decide))

/-- A blank text and a text with comments only hold no code, and yet they do not agree. -/
theorem not_agrees_of_codeFree : ¬ ∀ (engine : Engine) (x y : Artifact),
    engine.CodeFree x → engine.CodeFree y → Agrees (engine.compare x y) := by
  intro h
  let engine : Engine := .standard fun _ => .ok (.leaf .module)
  have hblank : Artifact.isBlank ⟨.a, none, ""⟩ ≠ Artifact.isBlank ⟨.b, none, "# c"⟩ := by decide
  have hagrees := h engine ⟨.a, none, ""⟩ ⟨.b, none, "# c"⟩ (.inl (by decide)) (.inr ⟨_, rfl, rfl⟩)
  have hdecision : Decision.pass = .fail :=
    hagrees.decision.symm.trans (disagrees_of_blank_ne engine hblank).decision
  exact absurd hdecision (by decide)

end Engine

end RenderGate
