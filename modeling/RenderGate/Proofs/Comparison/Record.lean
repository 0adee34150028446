import RenderGate.Proofs.Comparison.Exchange

/-!
# What a comparison records

Diagnostics, signals and log tell the same account of how a comparison ended: no side holds code,
one holds none, some texts cannot be parsed, or two trees are scored.  Every account comes with keys
of its own in the diagnostics, so only one of them fits (`Records.unique`).
-/

namespace RenderGate

inductive Account where
  | bothEmpty
  | oneEmpty (label : Label)
  | unparsed (labels : List Label)
  | scored
deriving DecidableEq

def baseKeys : List String := ["threshold_used", "pass_threshold", "weights", "identical_content"]

/-- The keys that an account has in the diagnostics, beside those of every comparison. -/
def Account.keys : Account → List String
  | .bothEmpty => ["empty_artifacts"]
  | .oneEmpty _ => ["error", "empty_artifacts"]
  | .unparsed labels => labels.map (Engine.side "parse_error_a" "parse_error_b") ++
      ["error", "failed_artifacts"]
  | .scored => ["metrics_a", "metrics_b", "token_count_a", "token_count_b", "common_tokens",
      "unique_tokens_a", "unique_tokens_b", "edit_similarity", "structural_breakdown"]

theorem Decision.name_eq (d : Decision) : d.name = if d = .pass then "pass" else "fail" := by
  cases d <;> rfl

theorem Route.name_eq (r : Route) : r.name = if r = .audit then "audit" else "none" := by
  cases r <;> rfl

theorem Json.ofFloat_of_isFinite {x : Float} (h : x.isFinite = true) :
    ofFloat x = .number (.float x) :=
  if_pos h

/-- Objects list their members in the order of the names. -/
theorem Weights.toJson_eq (w : Weights) : w.toJson =
    .object [("edit", .ofFloat w.edit), ("structural", .ofFloat w.structural),
      ("token", .ofFloat w.token)] := by
  have hedit : "edit" < "token" := by decide
  have hbehind : ¬ "structural" < "edit" := by decide
  have hbefore : "edit" < "structural" := by decide
  have hstructural : "structural" < "token" := by decide
  simp only [toJson, Json.ofMembers, Table.ofList, List.foldl, Table.insert, Table.insertEntry,
    Table.empty, if_pos hedit, if_neg hbehind, if_pos hbefore, if_pos hstructural]

namespace Engine

theorem side_injective {α : Type} {x y : α} (h : x ≠ y) : Function.Injective (side x y) := by
  intro label other heq
  cases label <;> cases other
  case a.a => rfl
  case a.b => exact absurd heq h
  case b.a => exact absurd heq.symm h
  case b.b => rfl

theorem listed_injective : Function.Injective fun label => Json.string (side "A" "B" label) := by
  intro label other h
  exact side_injective (by decide) (Json.string.inj h)

section account

variable (engine : Engine) (x y : Artifact)

/-- What every comparison records: its configuration, and whether the texts have one digest. -/
structure RecordsCommon (o : Outcome) : Prop where
  threshold : o.diagnostics.get? "threshold_used" =
    some (.number (.float engine.config.threshold))
  passThreshold : o.diagnostics.get? "pass_threshold" =
    some (.number (.float (1.0 - engine.config.threshold)))
  weights : o.diagnostics.get? "weights" = some (.object
    [("edit", .number (.float engine.config.weights.edit)),
      ("structural", .number (.float engine.config.weights.structural)),
      ("token", .number (.float engine.config.weights.token))])
  identical : o.diagnostics.get? "identical_content" = some (.bool (x.digest == y.digest))

/-- Neither side holds code, so they agree; nothing is logged. -/
structure RecordsBothEmpty (o : Outcome) (events : List Event) : Prop extends Agrees o where
  cause : engine.CodeFree x ∧ engine.CodeFree y
  listed : o.diagnostics.get? "empty_artifacts" = some (.array [.string "A", .string "B"])
  logged : events = []

/-- The side with the label holds no code; there is a warning of it. -/
structure RecordsOneEmpty (label : Label) (o : Outcome) (events : List Event) : Prop
    extends Disagrees o where
  cause : engine.CodeFree (side x y label)
  listed : o.diagnostics.get? "empty_artifacts" = some (.array [.string (side "A" "B" label)])
  error : o.diagnostics.get? "error" =
    some (.string ("artifact " ++ side "A" "B" label ++ " is empty"))
  logged : events = [⟨.warn, "Artifact " ++ side "A" "B" label ++ " is empty"⟩]

/-- The sides with the labels cannot be parsed; there is a warning for each, in their order. -/
structure RecordsUnparsed (labels : List Label) (o : Outcome) (events : List Event) : Prop
    extends Disagrees o where
  order : labels ∈ [[Label.a], [.b], [.a, .b]]
  cause : ∀ label, label ∈ labels ↔ ∃ e, engine.parse (side x y label).content = .error e
  listed : o.diagnostics.get? "failed_artifacts" =
    some (.array (labels.map fun label => .string (side "A" "B" label)))
  error : o.diagnostics.get? "error" = some (.string "parse failure")
  logged : ∃ reason : Label → ParseError,
    (∀ label ∈ labels, engine.parse (side x y label).content = .error (reason label) ∧
      o.diagnostics.get? (side "parse_error_a" "parse_error_b" label) =
        some (.string (reason label).message)) ∧
    events = labels.map fun label =>
      ⟨.warn, "Artifact " ++ side "A" "B" label ++ " failed to parse: " ++ (reason label).message⟩

/-- Two trees are scored; the signals are logged, and there is no warning. -/
structure RecordsScored (o : Outcome) (events : List Event) : Prop where
  /-- What both sides share and what either has alone makes up its different tokens. -/
  counts : ∃ (s t : Node) (common uniqueFirst uniqueSecond : ℕ),
    engine.parse x.content = .ok s ∧ engine.parse y.content = .ok t ∧
    o.diagnostics.get? "common_tokens" = some (.number (.int common)) ∧
    o.diagnostics.get? "unique_tokens_a" = some (.number (.int uniqueFirst)) ∧
    o.diagnostics.get? "unique_tokens_b" = some (.number (.int uniqueSecond)) ∧
    common = (s.tokens.toFinset ∩ t.tokens.toFinset).card ∧
    common + uniqueFirst = s.tokens.toFinset.card ∧
    common + uniqueSecond = t.tokens.toFinset.card
  edit : o.diagnostics.get? "edit_similarity" =
    some (if o.signals.edit.isFinite then .number (.float o.signals.edit) else .null)
  logged : events = [⟨.debug, "Signals: token=" ++ Decimal.fixedText 4 o.signals.token ++
    " edit=" ++ Decimal.fixedText 4 o.signals.edit ++
    " structural=" ++ Decimal.fixedText 4 o.signals.structural⟩]

/-- An outcome gives an account, and so do the events that are logged on the way to it. -/
def Tells (o : Outcome) (events : List Event) : Account → Prop
  | .bothEmpty => engine.RecordsBothEmpty x y o events
  | .oneEmpty label => engine.RecordsOneEmpty x y label o events
  | .unparsed labels => engine.RecordsUnparsed x y labels o events
  | .scored => engine.RecordsScored x y o events

/-- The diagnostics have exactly the keys of an account, and it is told. -/
structure Records (o : Outcome) (events : List Event) (account : Account) : Prop where
  keys : o.diagnostics.keys.Perm (baseKeys ++ account.keys)
  tells : engine.Tells x y o events account

end account

variable {engine : Engine} {x y : Artifact}

/-- Three keys tell the kinds of accounts apart, and the labels that a kind has are listed. -/
theorem Records.unique {o : Outcome} {events : List Event} {account other : Account}
    (h : engine.Records x y o events account) (h' : engine.Records x y o events other) :
    account = other := by
  have hperm : account.keys.Perm other.keys :=
    (List.perm_append_left_iff _).mp (h.keys.symm.trans h'.keys)
  have hfailed := hperm.mem_iff (a := "failed_artifacts")
  have hempty := hperm.mem_iff (a := "empty_artifacts")
  have herror := hperm.mem_iff (a := "error")
  cases account <;> cases other <;> simp [Account.keys] at hfailed hempty herror ⊢
  case oneEmpty.oneEmpty label other =>
    have hlisted := h.tells.listed.symm.trans h'.tells.listed
    exact listed_injective (by simpa using hlisted)
  case unparsed.unparsed labels others =>
    have hlisted := h.tells.listed.symm.trans h'.tells.listed
    exact List.map_injective_iff.mpr listed_injective (by simpa using hlisted)

/-- Nothing that the findings add replaces what is already there. -/
theorem get?_diagnostics_base (engine : Engine) (x y : Artifact) {d : String × Json}
    (h : d ∈ baseDiagnostics engine.config x.reference y.reference) :
    (engine.compare x y).diagnostics.get? d.1 = some d.2 :=
  Table.get?_ofList_of_mem (engine.nodup_keys_diagnostics x y) (List.mem_append_left _ h)

theorem recordsCommon (engine : Engine) (x y : Artifact) :
    engine.RecordsCommon x y (engine.compare x y) := by
  obtain ⟨h₀, h₁⟩ := Config.bounds_of_usable engine.usable
  have hweights := Config.weights_of_usable engine.usable
  constructor
  case threshold =>
    rw [← Json.ofFloat_of_isFinite (Double.isFinite_of_lt_of_lt h₀ h₁)]
    exact engine.get?_diagnostics_base x y (.head _)
  case passThreshold =>
    have hfinite : (1.0 - engine.config.threshold).isFinite = true :=
      (Verdict.nearest_passThreshold h₀ h₁).finite
    rw [← Json.ofFloat_of_isFinite hfinite]
    exact engine.get?_diagnostics_base x y (.tail _ (.head _))
  case weights =>
    rw [← Json.ofFloat_of_isFinite (Weights.finite_edit hweights).1,
      ← Json.ofFloat_of_isFinite (Weights.finite_structural hweights).1,
      ← Json.ofFloat_of_isFinite (Weights.finite_token hweights).1, ← Weights.toJson_eq]
    exact engine.get?_diagnostics_base x y (.tail _ (.tail _ (.head _)))
  case identical =>
    exact engine.get?_diagnostics_base x y (.tail _ (.tail _ (.tail _ (.head _))))

section found

variable {found : Findings} (h : engine.examine x y = found)

include h

theorem get?_diagnostics_of_examine {key : String} {value : Json}
    (hmem : (key, value) ∈ (conclude engine.config found).diagnostics) :
    (engine.compare x y).diagnostics.get? key = some value := by
  rw [← h] at hmem
  exact Table.get?_ofList_of_mem (engine.nodup_keys_diagnostics x y) (List.mem_append_right _ hmem)

theorem keys_diagnostics_of_examine : (engine.compare x y).diagnostics.keys.Perm
    (baseKeys ++ (conclude engine.config found).diagnostics.map Prod.fst) := by
  have hkeys := Table.keys_ofList_perm (engine.nodup_keys_diagnostics x y)
  rw [List.map_append] at hkeys
  rw [← h]
  exact hkeys

theorem signals_of_examine :
    (engine.compare x y).signals = (conclude engine.config found).signals := by
  rw [signals_compare, h]

end found

theorem records_bothEmpty (h : engine.examine x y = .empty .both) (hx : engine.CodeFree x)
    (hy : engine.CodeFree y) :
    engine.Records x y (engine.compare x y) (concludeEmpty .both).events .bothEmpty where
  keys := keys_diagnostics_of_examine h
  tells :=
    { agrees_of_examine h with
      cause := ⟨hx, hy⟩
      listed := get?_diagnostics_of_examine h (.head _)
      logged := rfl }

theorem records_oneEmpty {label : Label} (h : engine.examine x y = .empty (.only label))
    (hfree : engine.CodeFree (side x y label)) :
    engine.Records x y (engine.compare x y) (concludeEmpty (.only label)).events
      (.oneEmpty label) where
  keys := keys_diagnostics_of_examine h
  tells :=
    { disagrees_of_examine_only h with
      cause := hfree
      listed := get?_diagnostics_of_examine h (.tail _ (.head _))
      error := get?_diagnostics_of_examine h (.head _)
      logged := rfl }

theorem records_unparsed {labels : List Label} {reason : Label → ParseError}
    (h : engine.examine x y = .unparsed (labels.map fun label => (label, reason label)))
    (horder : labels ∈ [[Label.a], [.b], [.a, .b]])
    (hparse : ∀ label, if label ∈ labels then
        engine.parse (side x y label).content = .error (reason label)
      else ∃ t, engine.parse (side x y label).content = .ok t) :
    engine.Records x y (engine.compare x y)
      (concludeUnparsed (labels.map fun label => (label, reason label))).events
      (.unparsed labels) := by
  have herror : ∀ label ∈ labels,
      engine.parse (side x y label).content = .error (reason label) := fun label hlabel => by
    have := hparse label
    rwa [if_pos hlabel] at this
  have hkeys := keys_diagnostics_of_examine h
  have hreason : ∀ label ∈ labels,
      (engine.compare x y).diagnostics.get? (side "parse_error_a" "parse_error_b" label) =
        some (.string (reason label).message) := fun label hlabel => by
    refine get?_diagnostics_of_examine h (List.mem_append_left _ ?_)
    rw [List.map_map]
    exact List.mem_map_of_mem hlabel
  constructor
  case keys =>
    rw [conclude, concludeUnparsed, List.map_append, List.map_map, List.map_map] at hkeys
    exact hkeys
  case tells =>
    refine { disagrees_of_examine_unparsed h with
      order := horder, cause := ?cause, listed := ?listed, error := ?error, logged := ?logged }
    case cause =>
      refine fun label => ⟨fun hlabel => ⟨_, herror label hlabel⟩, fun ⟨e, he⟩ => ?_⟩
      by_contra hlabel
      have hok := hparse label
      rw [if_neg hlabel, he] at hok
      exact nomatch hok
    case listed =>
      have hlabels : (labels.map fun label => (label, reason label)).map (fun e => e.1.toJson) =
        labels.map fun label => .string (side "A" "B" label) := List.map_map
      rw [← hlabels]
      exact get?_diagnostics_of_examine h (List.mem_append_right _ (.tail _ (.head _)))
    case error => exact get?_diagnostics_of_examine h (List.mem_append_right _ (.head _))
    case logged =>
      exact ⟨reason, fun label hlabel => ⟨herror label hlabel, hreason label hlabel⟩,
        List.map_map⟩

/-- No more tokens are common than a side has different ones. -/
theorem commonTokens_le (tokens others : List String) :
    commonTokens tokens others ≤ Tokens.distinct tokens :=
  List.length_filter_le _ _

theorem records_scored {s t : Node} (h : engine.examine x y = .trees s t)
    (hs : engine.parse x.content = .ok s) (ht : engine.parse y.content = .ok t) :
    engine.Records x y (engine.compare x y) (concludeTrees engine.config s t).events .scored := by
  have hle := commonTokens_le s.tokens t.tokens
  have hle' := commonTokens_le t.tokens s.tokens
  rw [commonTokens_comm] at hle'
  have hcommon : (engine.compare x y).diagnostics.get? "common_tokens" =
      some (.ofNat (commonTokens s.tokens t.tokens)) :=
    get?_diagnostics_of_examine h (.tail _ (.tail _ (.tail _ (.tail _ (.head _)))))
  constructor
  case keys => exact keys_diagnostics_of_examine h
  case tells =>
    constructor
    case counts =>
      refine ⟨s, t, _, _, _, hs, ht, hcommon, get?_unique_tokens_a h, get?_unique_tokens_b h,
        commonTokens_eq_card _ _, ?_, ?_⟩
      · rw [Nat.add_sub_cancel' hle, distinct_eq_card]
      · rw [Nat.add_sub_cancel' hle', distinct_eq_card]
    case edit =>
      rw [signals_of_examine h]
      exact get?_diagnostics_of_examine h (.tail _ (.tail _ (.tail _ (.tail _ (.tail _ (.tail _
        (.tail _ (.head _))))))))
    case logged =>
      rw [signals_of_examine h]
      rfl

/-- A comparison gives one account. -/
theorem exists_records (engine : Engine) (x y : Artifact) :
    ∃ account, engine.Records x y (engine.compare x y)
      (conclude engine.config (engine.examine x y)).events account := by
  rcases engine.examine_cases x y with ⟨h, hx, hy⟩ | ⟨label, h, hfree⟩ |
    ⟨labels, reason, h, horder, hparse⟩ | ⟨s, t, h, -, -, hs, ht⟩ <;> rw [h]
  · exact ⟨_, records_bothEmpty h hx hy⟩
  · exact ⟨_, records_oneEmpty h hfree⟩
  · exact ⟨_, records_unparsed h horder hparse⟩
  · exact ⟨_, records_scored h hs ht⟩

theorem log_eq (engine : Engine) (x y : Artifact) : engine.log x y =
    ⟨.info, "Comparing " ++ x.reference.text ++ " against " ++ y.reference.text⟩ ::
      (conclude engine.config (engine.examine x y)).events ++
        [⟨.info, "Comparison completed: " ++
          Decimal.fixedText 2 (engine.compare x y).similarityPercent ++ "% similar, decision=" ++
          (if (engine.compare x y).verdict.decision = .pass then "pass" else "fail") ++
          ", route=" ++
          (if (engine.compare x y).verdict.route = .audit then "audit" else "none")⟩] := by
  rw [← Decision.name_eq, ← Route.name_eq]
  rfl

/-- The log starts with what is compared and ends with decision and route of the outcome.  Exactly
one account is told by what is logged between them and by the diagnostics, which also hold what all
comparisons tell. -/
theorem compare_records (engine : Engine) (x y : Artifact) :
    engine.RecordsCommon x y (engine.compare x y) ∧
    ∃ events, engine.log x y =
        ⟨.info, "Comparing " ++ x.reference.text ++ " against " ++ y.reference.text⟩ :: events ++
          [⟨.info, "Comparison completed: " ++
            Decimal.fixedText 2 (engine.compare x y).similarityPercent ++ "% similar, decision=" ++
            (if (engine.compare x y).verdict.decision = .pass then "pass" else "fail") ++
            ", route=" ++
            (if (engine.compare x y).verdict.route = .audit then "audit" else "none")⟩] ∧
      ∃! account, engine.Records x y (engine.compare x y) events account := by
  obtain ⟨account, h⟩ := engine.exists_records x y
  exact ⟨engine.recordsCommon x y, _, engine.log_eq x y, account, h, fun _ h' => h'.unique h⟩

end Engine

end RenderGate
