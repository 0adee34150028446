import RenderGate.Similarity.Signals
import RenderGate.Decimal.Shortest

/-!
# Configuration

The threshold is the largest distance that two trees may have to pass, and the weights say how the
signals are joined.  A configuration is usable if its threshold lies strictly between 0 and 1 and
its weights are finite, not negative and add up to 1 within a small tolerance.
-/

namespace RenderGate

structure Config where
  threshold : Float
  weights : Weights

inductive ConfigError where
  | thresholdOutOfRange (threshold : Float)
  | invalidWeight (signal : String) (weight : Float)
  | weightSum (sum : Float)
  /-- The document does not describe a configuration. -/
  | malformedDocument

/-- The text of an error; for a malformed document only the kind of error is fixed. -/
def ConfigError.message : ConfigError → String
  | .thresholdOutOfRange x =>
      "diff threshold must lie in (0.0, 1.0), got " ++ Decimal.shortestText x
  | .invalidWeight signal x =>
      "weight `" ++ signal ++ "` must be finite and non-negative, got " ++ Decimal.shortestText x
  | .weightSum x => "similarity weights must sum to 1.0, got " ++ Decimal.shortestText x
  | .malformedDocument => "invalid configuration document"

namespace Weights

/-- The weights that count unless others are given: structure counts most, so that new names or
comments alone do not make a pair fail. -/
def standard : Weights := ⟨0.3, 0.2, 0.5⟩

def named (w : Weights) : List (String × Float) :=
  [("token", w.token), ("edit", w.edit), ("structural", w.structural)]

/-- How far the sum of the weights may be from 1. -/
def tolerance : Float := 1e-9

/-- The first reason why the weights are not usable. -/
def fault? (w : Weights) : Option ConfigError :=
  match w.named.find? fun e => !e.2.isFinite || e.2 < 0.0 with
  | some (signal, weight) => some (.invalidWeight signal weight)
  | none => if tolerance < (w.sum - 1.0).abs then some (.weightSum w.sum) else none

end Weights

namespace Config

def standardThreshold : Float := 0.03

def standard : Config := ⟨standardThreshold, .standard⟩

/-- The threshold error of a value that does not lie strictly between 0 and 1. -/
def thresholdFault? (threshold : Float) : Option ConfigError :=
  if 0.0 < threshold && threshold < 1.0 then none else some (.thresholdOutOfRange threshold)

def fault? (c : Config) : Option ConfigError :=
  match thresholdFault? c.threshold with
  | some e => some e
  | none => c.weights.fault?

def validated (c : Config) : Except ConfigError Config :=
  match c.fault? with
  | some e => .error e
  | none => .ok c

end Config

end RenderGate
