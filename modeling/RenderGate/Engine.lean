import RenderGate.Decimal.Fixed
import RenderGate.ParseError
import RenderGate.Report
import RenderGate.Wire.Artifact
import RenderGate.Wire.Comparison

/-!
# Comparison of artifacts

An engine compares the texts of two artifacts.  What the texts turn out to be decides the outcome:
two artifacts without code agree, one without code does not agree with the other, a text that cannot
be parsed agrees with nothing, and two trees are scored.  The outcome comes with diagnostics and
with the events that are logged on the way.
-/

namespace RenderGate

inductive Level where
  | debug
  | info
  | warn
deriving DecidableEq, Repr

def Level.name : Level → String
  | .debug => "DEBUG"
  | .info => "INFO"
  | .warn => "WARN"

structure Event where
  level : Level
  message : String
deriving DecidableEq, Repr

def Event.text (e : Event) : String := e.level.name ++ " " ++ e.message

inductive Emptiness where
  | both
  | only (label : Label)
deriving DecidableEq, Repr

def Emptiness.detect? : Bool → Bool → Option Emptiness
  | true, true => some .both
  | true, false => some (.only .a)
  | false, true => some (.only .b)
  | false, false => none

/-- What the texts of a pair turn out to be. -/
inductive Findings where
  | empty (emptiness : Emptiness)
  /-- At least one text cannot be parsed; the errors stand in the order of the sides. -/
  | unparsed (errors : List (Label × ParseError))
  | trees (first second : Node)

structure Conclusion where
  similarity : Float
  signals : Signals
  verdict : Verdict
  diagnostics : List (String × Json)
  events : List Event

/-- A usable configuration with a parser. -/
structure Engine where
  config : Config
  usable : config.fault? = none
  parse : String → Except ParseError Node

namespace Engine

def ofConfig (config : Config) (parse : String → Except ParseError Node) :
    Except ConfigError Engine :=
  match h : config.fault? with
  | some e => .error e
  | none => .ok ⟨config, h, parse⟩

def errorOf (label : Label) : Except ParseError Node → List (Label × ParseError)
  | .ok _ => []
  | .error e => [(label, e)]

/-- What the texts of two artifacts turn out to be; a text that is blank is not parsed. -/
def examine (engine : Engine) (x y : Artifact) : Findings :=
  match Emptiness.detect? x.isBlank y.isBlank with
  | some emptiness => .empty emptiness
  | none =>
      match engine.parse x.content, engine.parse y.content with
      | .ok s, .ok t =>
          match Emptiness.detect? s.isEmpty t.isEmpty with
          | some emptiness => .empty emptiness
          | none => .trees s t
      | r, s => .unparsed (errorOf .a r ++ errorOf .b s)

/-- Two artifacts without code agree, and one without code agrees with no other. -/
def concludeEmpty : Emptiness → Conclusion
  | .both =>
      { similarity := 1.0
        signals := .uniform 1.0
        verdict := .pass
        diagnostics := [("empty_artifacts", .array [Label.a.toJson, Label.b.toJson])]
        events := [] }
  | .only label =>
      { similarity := 0.0
        signals := .uniform 0.0
        verdict := .fail
        diagnostics := [("error", .string ("artifact " ++ label.name ++ " is empty")),
          ("empty_artifacts", .array [label.toJson])]
        events := [⟨.warn, "Artifact " ++ label.name ++ " is empty"⟩] }

def parseErrorKey : Label → String
  | .a => "parse_error_a"
  | .b => "parse_error_b"

/-- A text that cannot be parsed agrees with nothing. -/
def concludeUnparsed (errors : List (Label × ParseError)) : Conclusion :=
  { similarity := 0.0
    signals := .uniform 0.0
    verdict := .fail
    diagnostics := errors.map (fun e => (parseErrorKey e.1, .string e.2.message)) ++
      [("error", .string "parse failure"),
        ("failed_artifacts", .array (errors.map fun e => e.1.toJson))]
    events := errors.map fun e =>
      ⟨.warn, "Artifact " ++ e.1.name ++ " failed to parse: " ++ e.2.message⟩ }

/-- How many tokens of a list occur in another list, each counted once. -/
def commonTokens (tokens others : List String) : Nat :=
  (tokens.eraseDups.filter others.contains).length

def signalsEvent (s : Signals) : Event :=
  ⟨.debug, "Signals: token=" ++ Decimal.fixedText 4 s.token ++ " edit=" ++
    Decimal.fixedText 4 s.edit ++ " structural=" ++ Decimal.fixedText 4 s.structural⟩

def concludeTrees (config : Config) (first second : Node) : Conclusion :=
  let s := first.summary
  let t := second.summary
  let assessment := s.assess t
  let similarity := config.weights.composite assessment.signals
  let common := commonTokens s.tokens t.tokens
  { similarity := similarity
    signals := assessment.signals
    verdict := .ofSimilarity config.threshold similarity
    diagnostics := [("metrics_a", s.fingerprint.toJson), ("metrics_b", t.fingerprint.toJson),
      ("token_count_a", .ofNat s.tokens.length), ("token_count_b", .ofNat t.tokens.length),
      ("common_tokens", .ofNat common),
      ("unique_tokens_a", .ofNat (Tokens.distinct s.tokens - common)),
      ("unique_tokens_b", .ofNat (Tokens.distinct t.tokens - common)),
      ("edit_similarity", .ofFloat assessment.signals.edit),
      ("structural_breakdown", .ofTableWith .ofFloat assessment.structural.breakdown)]
    events := [signalsEvent assessment.signals] }

def conclude (config : Config) : Findings → Conclusion
  | .empty emptiness => concludeEmpty emptiness
  | .unparsed errors => concludeUnparsed errors
  | .trees first second => concludeTrees config first second

def baseDiagnostics (config : Config) (first second : ArtifactRef) : List (String × Json) :=
  [("threshold_used", .ofFloat config.threshold), ("pass_threshold", .ofFloat config.passThreshold),
    ("weights", config.weights.toJson),
    ("identical_content", .bool (first.digest == second.digest))]

def openingEvent (first second : ArtifactRef) : Event :=
  ⟨.info, "Comparing " ++ first.text ++ " against " ++ second.text⟩

def closingEvent (o : Outcome) : Event :=
  ⟨.info, "Comparison completed: " ++ Decimal.fixedText 2 o.similarityPercent ++
    "% similar, decision=" ++ o.verdict.decision.name ++ ", route=" ++ o.verdict.route.name⟩

/-- The outcome of a comparison with the events logged on the way. -/
def run (engine : Engine) (x y : Artifact) : Outcome × List Event :=
  let first := x.reference
  let second := y.reference
  let conclusion := conclude engine.config (engine.examine x y)
  let outcome := Outcome.of first second conclusion.similarity conclusion.signals conclusion.verdict
    (.ofList (baseDiagnostics engine.config first second ++ conclusion.diagnostics))
  (outcome, openingEvent first second :: conclusion.events ++ [closingEvent outcome])

def compare (engine : Engine) (x y : Artifact) : Outcome := (engine.run x y).1

def log (engine : Engine) (x y : Artifact) : List Event := (engine.run x y).2

def compareMany (engine : Engine) (pairs : List (Artifact × Artifact)) : List Outcome :=
  pairs.map fun p => engine.compare p.1 p.2

end Engine

end RenderGate
