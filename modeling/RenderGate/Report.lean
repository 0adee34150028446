import RenderGate.Artifact
import RenderGate.Json.Basic
import RenderGate.Time.Calendar
import RenderGate.Verdict

/-!
# Reports

What a comparison came to, with free-form diagnostics under text keys.  A report adds how long the
comparison took and when it ended; its outcome is everything else.
-/

namespace RenderGate

structure Outcome where
  first : ArtifactRef
  second : ArtifactRef
  similarity : Float
  signals : Signals
  distance : Float
  verdict : Verdict
  diagnostics : Table Json

/-- A length of time, the nanoseconds below a billion. -/
structure Duration where
  seconds : Nat
  nanos : Nat
deriving DecidableEq, Repr

/-- An outcome with the time that it took and the moment at which it was reached. -/
structure Report where
  outcome : Outcome
  duration : Duration
  timestamp : Instant

namespace Outcome

/-- The outcome of a comparison of two artifacts, whose distance follows from the similarity. -/
def of (first second : ArtifactRef) (similarity : Float) (signals : Signals) (verdict : Verdict)
    (diagnostics : Table Json) : Outcome :=
  { first := first
    second := second
    similarity := similarity
    signals := signals
    distance := 1.0 - similarity
    verdict := verdict
    diagnostics := diagnostics }

def isPass (o : Outcome) : Bool := o.verdict.decision == .pass

def requiresAudit (o : Outcome) : Bool := o.verdict.route == .audit

def similarityPercent (o : Outcome) : Float := o.similarity * 100.0

def distancePercent (o : Outcome) : Float := o.distance * 100.0

/-- Agreement in all but how doubles agree: similarity and distance by the given test, the signals
and the numbers in the diagnostics as numbers. -/
def agrees (close : Float → Float → Bool) (o p : Outcome) : Bool :=
  o.first == p.first && o.second == p.second && close o.similarity p.similarity &&
    o.signals.same p.signals && close o.distance p.distance && o.verdict == p.verdict &&
    Json.sameMembers o.diagnostics.entries p.diagnostics.entries

/-- The same outcome, with similarity and distance equal bit for bit. -/
def same (o p : Outcome) : Bool := o.agrees (fun x y => x.toBits == y.toBits) p

end Outcome

/-- The same report, with all doubles equal as numbers. -/
def Report.same (r s : Report) : Bool :=
  r.outcome.agrees (· == ·) s.outcome && r.duration == s.duration && r.timestamp == s.timestamp

end RenderGate
