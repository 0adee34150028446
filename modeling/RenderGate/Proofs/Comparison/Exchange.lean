import RenderGate.Proofs.Comparison.Renaming
import RenderGate.Proofs.Comparison.Threshold
import RenderGate.Proofs.Similarity.Symmetry

/-!
# Exchange of the sides

A comparison of two artifacts and the comparison the other way round end on the same way, and report
the same with the sides exchanged.  What the texts turn out to be is exchanged (`examine_exchange`),
hence the diagnostics are, entry by entry (`diagnostics_exchange`).  Only the alignment of the token
sequences may depend on the order, and what is computed from it.
-/

namespace RenderGate

def Label.other : Label → Label
  | .a => .b
  | .b => .a

def Emptiness.exchange : Emptiness → Emptiness
  | .both => .both
  | .only label => .only label.other

/-- The findings for exchanged sides; errors stand in the order of the sides. -/
def Findings.exchange : Findings → Findings
  | .empty emptiness => .empty emptiness.exchange
  | .unparsed errors => .unparsed (errors.map fun e => (e.1.other, e.2)).reverse
  | .trees first second => .trees second first

theorem Emptiness.detect?_exchange (first second : Bool) :
    detect? second first = (detect? first second).map exchange := by
  cases first <;> cases second <;> rfl

theorem Summary.edit_assess_comm (s t : Summary) :
    (t.assess s).signals.edit = (s.assess t).signals.edit :=
  Similarity.editSimilarity_comm _ _

theorem Summary.structural_assess_comm (s t : Summary) :
    (t.assess s).structural = (s.assess t).structural :=
  Fingerprint.compare_comm _ _

theorem Summary.signals_structural_assess_comm (s t : Summary) :
    (t.assess s).signals.structural = (s.assess t).signals.structural :=
  congrArg (fun c : StructuralComparison => c.score.getD 1.0) (structural_assess_comm s t)

namespace Engine

inductive Exit where
  /-- A text is blank. -/
  | blank
  /-- A text cannot be parsed. -/
  | unparsed
  /-- A tree has no statements. -/
  | empty
  /-- Two trees are scored. -/
  | scored
deriving DecidableEq

def exit (engine : Engine) (x y : Artifact) : Exit :=
  if x.isBlank || y.isBlank then .blank
  else
    match engine.examine x y with
    | .empty _ => .empty
    | .unparsed _ => .unparsed
    | .trees _ _ => .scored

/-- The key of the other side, where a key belongs to one of the sides. -/
def otherSide : String → String
  | "metrics_a" => "metrics_b"
  | "metrics_b" => "metrics_a"
  | "token_count_a" => "token_count_b"
  | "token_count_b" => "token_count_a"
  | "unique_tokens_a" => "unique_tokens_b"
  | "unique_tokens_b" => "unique_tokens_a"
  | "parse_error_a" => "parse_error_b"
  | "parse_error_b" => "parse_error_a"
  | key => key

def otherLabel : Json → Json
  | .string "A" => .string "B"
  | .string "B" => .string "A"
  | value => value

/-- The message that blames the other side, where a message blames one. -/
def otherMessage : String → String
  | "artifact A is empty" => "artifact B is empty"
  | "artifact B is empty" => "artifact A is empty"
  | message => message

/-- The diagnostic under a key for exchanged sides: lists of labels, which stand in the order of
the sides, and the error that names a side are exchanged, and all else stays. -/
def otherValue : String → Json → Json
  | "empty_artifacts", .array labels => .array (labels.map otherLabel).reverse
  | "failed_artifacts", .array labels => .array (labels.map otherLabel).reverse
  | "error", .string message => .string (otherMessage message)
  | _, value => value

def otherEntry (e : String × Json) : String × Json := (otherSide e.1, otherValue e.1 e.2)

theorem otherSide_otherSide (key : String) : otherSide (otherSide key) = key := by
  rw [otherSide.eq_def key]
  split
  case h_9 => simp [otherSide]
  all_goals rfl

theorem otherSide_injective : Function.Injective otherSide :=
  Function.LeftInverse.injective otherSide_otherSide

theorem otherLabel_toJson (label : Label) : otherLabel label.toJson = label.other.toJson := by
  cases label <;> rfl

theorem examine_exchange (engine : Engine) (x y : Artifact) :
    engine.examine y x = (engine.examine x y).exchange := by
  unfold examine
  rw [Emptiness.detect?_exchange x.isBlank]
  cases Emptiness.detect? x.isBlank y.isBlank with
  | some emptiness => rfl
  | none =>
      cases engine.parse x.content with
      | error d => cases engine.parse y.content <;> rfl
      | ok s =>
          cases engine.parse y.content with
          | error e => rfl
          | ok t =>
              simp only [Option.map_none]
              rw [Emptiness.detect?_exchange s.isEmpty]
              cases Emptiness.detect? s.isEmpty t.isEmpty <;> rfl

theorem exit_exchange (engine : Engine) (x y : Artifact) : engine.exit y x = engine.exit x y := by
  unfold exit
  rw [examine_exchange, Bool.or_comm]
  cases engine.examine x y <;> rfl

theorem exit_eq_scored {engine : Engine} {x y : Artifact} {s t : Node}
    (h : engine.examine x y = .trees s t) : engine.exit x y = .scored := by
  rcases engine.examine_cases x y with ⟨h', -⟩ | ⟨label, h', -⟩ | ⟨labels, reason, h', -⟩ |
    ⟨_, _, -, hx, hy, -⟩
  · exact nomatch h'.symm.trans h
  · exact nomatch h'.symm.trans h
  · exact nomatch h'.symm.trans h
  · rw [exit, hx, hy, h]
    rfl

theorem nodup_eraseDups (tokens : List String) : tokens.eraseDups.Nodup := by
  match tokens with
  | [] => exact List.nodup_nil
  | t :: ts =>
      rw [List.eraseDups_cons, List.nodup_cons]
      refine ⟨fun h => ?_, nodup_eraseDups _⟩
      have hne := (List.mem_filter.mp (List.mem_eraseDups.mp h)).2
      rw [beq_self_eq_true] at hne
      exact absurd hne Bool.false_ne_true
termination_by tokens.length
decreasing_by exact Nat.lt_succ_of_le (List.length_filter_le _ _)

theorem distinct_eq_card (tokens : List String) :
    Tokens.distinct tokens = tokens.toFinset.card := by
  have hset : tokens.eraseDups.toFinset = tokens.toFinset := by
    ext t
    rw [List.mem_toFinset, List.mem_toFinset, List.mem_eraseDups]
  rw [← hset, List.toFinset_card_of_nodup (nodup_eraseDups tokens), Tokens.distinct]

theorem commonTokens_eq_card (tokens others : List String) :
    commonTokens tokens others = (tokens.toFinset ∩ others.toFinset).card := by
  have hset : (tokens.eraseDups.filter others.contains).toFinset =
      tokens.toFinset ∩ others.toFinset := by
    ext t
    rw [List.mem_toFinset, List.mem_filter, List.mem_eraseDups, List.contains_iff_mem,
      Finset.mem_inter, List.mem_toFinset, List.mem_toFinset]
  rw [← hset, List.toFinset_card_of_nodup ((nodup_eraseDups tokens).filter _), commonTokens]

/-- Both ways the tokens are counted that occur in both lists. -/
theorem commonTokens_comm (tokens others : List String) :
    commonTokens tokens others = commonTokens others tokens := by
  rw [commonTokens_eq_card, commonTokens_eq_card, Finset.inter_comm]

theorem baseDiagnostics_exchange (c : Config) (r s : ArtifactRef) :
    baseDiagnostics c s r = (baseDiagnostics c r s).map otherEntry := by
  unfold baseDiagnostics
  rw [Bool.beq_comm]
  rfl

theorem diagnostics_concludeUnparsed_exchange (errors : List (Label × ParseError)) :
    (concludeUnparsed (errors.map fun e => (e.1.other, e.2)).reverse).diagnostics.Perm
      ((concludeUnparsed errors).diagnostics.map otherEntry) := by
  have hkey : ∀ e : Label × ParseError,
      otherEntry (parseErrorKey e.1, .string e.2.message) =
        (parseErrorKey e.1.other, .string e.2.message) := fun e => by
    cases e.1 <;> rfl
  have hlabels : ((errors.map fun e => (e.1.other, e.2)).reverse.map fun e => e.1.toJson) =
      ((errors.map fun e => e.1.toJson).map otherLabel).reverse := by
    simp only [List.map_reverse, List.map_map, Function.comp_def, otherLabel_toJson]
  unfold concludeUnparsed
  rw [List.map_append, hlabels]
  refine List.Perm.append ?_ (.refl _)
  simp only [List.map_reverse, List.map_map, Function.comp_def, hkey]
  exact List.reverse_perm _

theorem diagnostics_concludeTrees_exchange (c : Config) (s t : Node) :
    (concludeTrees c t s).diagnostics.Perm ((concludeTrees c s t).diagnostics.map otherEntry) := by
  unfold concludeTrees
  simp only [commonTokens_comm t.summary.tokens, Summary.edit_assess_comm s.summary,
    Summary.structural_assess_comm s.summary]
  exact .swap' _ _ (.swap' _ _ (.cons _ (.swap' _ _ (.refl _))))

theorem diagnostics_conclude_exchange (c : Config) (found : Findings) :
    (conclude c found.exchange).diagnostics.Perm
      ((conclude c found).diagnostics.map otherEntry) := by
  cases found with
  | empty emptiness =>
      cases emptiness with
      | both => exact .refl _
      | only label => cases label <;> exact .refl _
  | unparsed errors => exact diagnostics_concludeUnparsed_exchange errors
  | trees s t => exact diagnostics_concludeTrees_exchange c s t

/-- No diagnostic is given twice. -/
theorem nodup_keys_diagnostics (engine : Engine) (x y : Artifact) :
    ((baseDiagnostics engine.config x.reference y.reference ++
      (conclude engine.config (engine.examine x y)).diagnostics).map Prod.fst).Nodup := by
  rcases engine.examine_cases x y with ⟨h, -⟩ | ⟨label, h, -⟩ | ⟨labels, reason, h, horder, -⟩ |
    ⟨s, t, h, -⟩ <;> rw [h]
  · show ["threshold_used", "pass_threshold", "weights", "identical_content",
      "empty_artifacts"].Nodup
    decide
  · show ["threshold_used", "pass_threshold", "weights", "identical_content", "error",
      "empty_artifacts"].Nodup
    decide
  · simp only [List.mem_cons, List.not_mem_nil, or_false] at horder
    rcases horder with rfl | rfl | rfl
    · show ["threshold_used", "pass_threshold", "weights", "identical_content", "parse_error_a",
        "error", "failed_artifacts"].Nodup
      decide
    · show ["threshold_used", "pass_threshold", "weights", "identical_content", "parse_error_b",
        "error", "failed_artifacts"].Nodup
      decide
    · show ["threshold_used", "pass_threshold", "weights", "identical_content", "parse_error_a",
        "parse_error_b", "error", "failed_artifacts"].Nodup
      decide
  · show ["threshold_used", "pass_threshold", "weights", "identical_content", "metrics_a",
      "metrics_b", "token_count_a", "token_count_b", "common_tokens", "unique_tokens_a",
      "unique_tokens_b", "edit_similarity", "structural_breakdown"].Nodup
    decide

/-- The diagnostics of the exchanged comparison, key by key. -/
theorem get?_diagnostics_exchange (engine : Engine) (x y : Artifact) (key : String) :
    (engine.compare y x).diagnostics.get? (otherSide key) =
      ((engine.compare x y).diagnostics.get? key).map (otherValue key) := by
  have hperm := (diagnostics_conclude_exchange engine.config (engine.examine x y)).append_left
    ((baseDiagnostics engine.config x.reference y.reference).map otherEntry)
  rw [← baseDiagnostics_exchange, ← examine_exchange, baseDiagnostics_exchange,
    ← List.map_append] at hperm
  rw [get?_diagnostics_compare, get?_diagnostics_compare,
    ← Table.get?_ofList_map otherSide_injective otherValue, baseDiagnostics_exchange]
  refine congrArg (fun t : Table Json => t.get? (otherSide key)) (Table.ofList_eq_of_perm hperm ?_)
  rw [← baseDiagnostics_exchange]
  exact engine.nodup_keys_diagnostics y x

theorem edit_conclude_exchange (c : Config) (found : Findings) :
    (conclude c found.exchange).signals.edit = (conclude c found).signals.edit := by
  cases found with
  | empty emptiness => cases emptiness <;> rfl
  | unparsed errors => rfl
  | trees s t => exact s.summary.edit_assess_comm t.summary

theorem structural_conclude_exchange (c : Config) (found : Findings) :
    (conclude c found.exchange).signals.structural = (conclude c found).signals.structural := by
  cases found with
  | empty emptiness => cases emptiness <;> rfl
  | unparsed errors => rfl
  | trees s t => exact s.summary.signals_structural_assess_comm t.summary

/-- All findings but trees come to the same similarities. -/
theorem token_conclude_exchange (c : Config) {found : Findings} (h : ∀ s t, found ≠ .trees s t) :
    (conclude c found.exchange).signals.token = (conclude c found).signals.token := by
  cases found with
  | empty emptiness => cases emptiness <;> rfl
  | unparsed errors => rfl
  | trees s t => exact absurd rfl (h s t)

/-- The similarity depends on the order through the signals only. -/
theorem similarity_conclude_exchange (c : Config) {found : Findings}
    (h : (conclude c found.exchange).signals = (conclude c found).signals) :
    (conclude c found.exchange).similarity = (conclude c found).similarity := by
  cases found with
  | empty emptiness => cases emptiness <;> rfl
  | unparsed errors => rfl
  | trees s t => exact congrArg c.weights.composite h

/-- Exchanged artifacts are compared on the same way, with the same edit and structural similarity
and with exchanged diagnostics.  If they are not scored, or if the token similarities agree, then so
do all similarities and the verdict. -/
theorem compare_exchange (engine : Engine) (x y : Artifact) :
    engine.exit y x = engine.exit x y ∧
    (engine.compare y x).first = (engine.compare x y).second ∧
    (engine.compare y x).second = (engine.compare x y).first ∧
    (engine.compare y x).signals.edit = (engine.compare x y).signals.edit ∧
    (engine.compare y x).signals.structural = (engine.compare x y).signals.structural ∧
    (∀ key, (engine.compare y x).diagnostics.get? (otherSide key) =
      ((engine.compare x y).diagnostics.get? key).map (otherValue key)) ∧
    (engine.exit x y ≠ .scored ∨
        (engine.compare y x).signals.token = (engine.compare x y).signals.token →
      (engine.compare y x).similarity = (engine.compare x y).similarity ∧
      (engine.compare y x).signals = (engine.compare x y).signals ∧
      (engine.compare y x).distance = (engine.compare x y).distance ∧
      (engine.compare y x).verdict = (engine.compare x y).verdict) := by
  have hedit : (engine.compare y x).signals.edit = (engine.compare x y).signals.edit := by
    rw [signals_compare, signals_compare, examine_exchange, edit_conclude_exchange]
  have hstructural :
      (engine.compare y x).signals.structural = (engine.compare x y).signals.structural := by
    rw [signals_compare, signals_compare, examine_exchange, structural_conclude_exchange]
  refine ⟨engine.exit_exchange x y, rfl, rfl, hedit, hstructural,
    engine.get?_diagnostics_exchange x y, fun h => ?_⟩
  have htoken : (engine.compare y x).signals.token = (engine.compare x y).signals.token := by
    refine h.elim (fun hexit => ?_) id
    rw [signals_compare, signals_compare, examine_exchange]
    refine token_conclude_exchange _ fun s t htrees => hexit ?_
    exact exit_eq_scored htrees
  have hsignals : (engine.compare y x).signals = (engine.compare x y).signals := by
    generalize (engine.compare y x).signals = s at htoken hedit hstructural
    generalize (engine.compare x y).signals = t at htoken hedit hstructural
    obtain ⟨_, _, _⟩ := s
    simp only at htoken hedit hstructural
    rw [htoken, hedit, hstructural]
  have hsimilarity : (engine.compare y x).similarity = (engine.compare x y).similarity := by
    rw [signals_compare, signals_compare, examine_exchange] at hsignals
    rw [similarity_compare, similarity_compare, examine_exchange]
    exact similarity_conclude_exchange _ hsignals
  refine ⟨hsimilarity, hsignals, ?_, ?_⟩
  · rw [distance_compare, distance_compare, hsimilarity]
  · rw [verdict_compare, verdict_compare, hsimilarity]

theorem compare_exchange_names :
    let parse : String → Except ParseError Node := fun text =>
      .ok (.of .module [.of .expr [.leaf (.name text)]])
    let engine : Engine := .standard parse
    (engine.compare ⟨.b, none, ""⟩ ⟨.a, none, "x"⟩).verdict =
        (engine.compare ⟨.a, none, "x"⟩ ⟨.b, none, ""⟩).verdict ∧
      (engine.compare ⟨.b, none, "y"⟩ ⟨.a, none, "x"⟩).verdict =
        (engine.compare ⟨.a, none, "x"⟩ ⟨.b, none, "y"⟩).verdict := by
  intro parse engine
  have hblank := (compare_exchange engine ⟨.a, none, "x"⟩ ⟨.b, none, ""⟩).2.2.2.2.2.2
  have hnames := (compare_exchange engine ⟨.a, none, "x"⟩ ⟨.b, none, "y"⟩).2.2.2.2.2.2
  have htokens : (Node.of .module [.of .expr [.leaf (.name "x")]]).tokens =
      (Node.of .module [.of .expr [.leaf (.name "y")]]).tokens := by
    rw [Node.tokens_eq_flatMap, Node.tokens_eq_flatMap]
    rfl
  have htoken : (engine.compare ⟨.b, none, "y"⟩ ⟨.a, none, "x"⟩).signals.token =
      (engine.compare ⟨.a, none, "x"⟩ ⟨.b, none, "y"⟩).signals.token := by
    have hx : engine.examine ⟨.a, none, "x"⟩ ⟨.b, none, "y"⟩ =
        .trees (.of .module [.of .expr [.leaf (.name "x")]])
          (.of .module [.of .expr [.leaf (.name "y")]]) :=
      examine_eq_trees (by decide) (by decide) rfl rfl rfl rfl
    rw [signals_compare, signals_compare, examine_exchange, hx]
    exact congrArg₂ Similarity.ratio htokens.symm htokens
  exact ⟨(hblank (.inl (by decide))).2.2.2, (hnames (.inr htoken)).2.2.2⟩

end Engine

end RenderGate
