import RenderGate.Node.Fingerprint

/-!
# Comparison of fingerprints

Each metric that is not zero on both sides yields a similarity, and their mean is the score.  The
counts per node type together make one further metric.
-/

namespace RenderGate

namespace Similarity

/-- The larger of two doubles; a number wins over what is not a number. -/
def larger (x y : Float) : Float :=
  if x.isNaN then y else if y.isNaN then x else if x < y then y else x

/-- One less the difference by the larger value, if that is above zero. -/
def relative? (x y : Float) : Option Float :=
  let scale := larger x y
  if 0.0 < scale then some (1.0 - (x - y).abs / scale) else none

/-- The mean of a list that is not empty, summed from left to right. -/
def mean? (xs : List Float) : Option Float :=
  if xs.isEmpty then none else some (xs.foldl (· + ·) 0.0 / Float.ofNat xs.length)

/-- The mean similarity of the counts of all types that occur on either side. -/
def histograms? (s t : Table Nat) : Option Float :=
  let types := Table.ofList ((s.keys ++ t.keys).map fun key => (key, ()))
  let count (u : Table Nat) (key : String) : Float := Float.ofNat ((u.get? key).getD 0)
  mean? (types.keys.filterMap fun key => relative? (count s key) (count t key))

end Similarity

structure StructuralComparison where
  breakdown : Table Float
  score : Option Float

def Fingerprint.compare (f g : Fingerprint) : StructuralComparison :=
  let scalars := (f.scalarMetrics.zip g.scalarMetrics).filterMap fun m =>
    (Similarity.relative? m.1.2 m.2.2).map fun similarity => (m.1.1, similarity)
  let histogram := (Similarity.histograms? f.histogram g.histogram).map fun similarity =>
    ("node_type_histogram", similarity)
  let breakdown := Table.ofList (scalars ++ histogram.toList)
  { breakdown := breakdown
    score := Similarity.mean? breakdown.values }

end RenderGate
