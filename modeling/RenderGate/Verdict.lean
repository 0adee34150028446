import RenderGate.Config

/-!
# Verdicts

Two trees pass if their similarity reaches one less the threshold; a pair that does not pass is sent
to an audit.
-/

namespace RenderGate

inductive Decision where
  | pass
  | fail
deriving DecidableEq, Repr

inductive Route where
  | nowhere
  | audit
deriving DecidableEq, Repr

structure Verdict where
  decision : Decision
  route : Route
deriving DecidableEq, Repr

def Decision.name : Decision → String
  | .pass => "pass"
  | .fail => "fail"

def Route.name : Route → String
  | .nowhere => "none"
  | .audit => "audit"

namespace Verdict

def pass : Verdict := ⟨.pass, .nowhere⟩

def fail : Verdict := ⟨.fail, .audit⟩

/-- The least similarity that passes. -/
def passThreshold (threshold : Float) : Float := 1.0 - threshold

/-- The verdict on a similarity; the least similarity that passes is included. -/
def ofSimilarity (threshold similarity : Float) : Verdict :=
  if passThreshold threshold ≤ similarity then pass else fail

def judge (threshold similarity : Float) : Except ConfigError Verdict :=
  match Config.thresholdFault? threshold with
  | some e => .error e
  | none => .ok (ofSimilarity threshold similarity)

theorem route_ofSimilarity (threshold similarity : Float) :
    (ofSimilarity threshold similarity).route = .audit ↔
      (ofSimilarity threshold similarity).decision = .fail := by
  unfold ofSimilarity
  split <;> simp [pass, fail]

end Verdict

def Config.passThreshold (c : Config) : Float := Verdict.passThreshold c.threshold

end RenderGate
