import RenderGate.Node.Tokens
import RenderGate.Similarity.Blocks
import RenderGate.Similarity.EditDistance
import RenderGate.Similarity.Structural

/-!
# Signals and their composite

Two trees are compared by three signals: the alignment of their tokens, the edit distance of their
tokens as one text, and the shapes of the trees.  A weighted mean of the signals is the composite
similarity.  It is divided by the total weight, so equal trees score exactly 1 also where the total
of the weights is off by a rounding error.
-/

namespace RenderGate

structure Signals where
  token : Float
  edit : Float
  structural : Float

structure Weights where
  token : Float
  edit : Float
  structural : Float

/-- What a comparison reads of a tree. -/
structure Summary where
  fingerprint : Fingerprint
  tokens : List String

structure Assessment where
  signals : Signals
  structural : StructuralComparison

namespace Signals

def uniform (x : Float) : Signals := ⟨x, x, x⟩

def same (s t : Signals) : Bool :=
  s.token == t.token && s.edit == t.edit && s.structural == t.structural

end Signals

namespace Weights

def sum (w : Weights) : Float := w.token + w.edit + w.structural

/-- The weighted mean of the signals, brought between 0 and 1; without a usable total weight it is
0. -/
def composite (w : Weights) (s : Signals) : Float :=
  if w.sum ≤ 0.0 || !w.sum.isFinite then 0.0
  else
    Similarity.clampUnit
      ((s.token * w.token + s.edit * w.edit + s.structural * w.structural) / w.sum)

end Weights

def Node.summary (n : Node) : Summary := ⟨n.fingerprint, n.tokens⟩

/-- The signals of two summaries; shapes without any metric to compare agree. -/
def Summary.assess (s t : Summary) : Assessment :=
  let structural := s.fingerprint.compare t.fingerprint
  { signals :=
      { token := Similarity.ratio s.tokens t.tokens
        edit := Similarity.editSimilarity (Tokens.joined s.tokens) (Tokens.joined t.tokens)
        structural := structural.score.getD 1.0 }
    structural := structural }

end RenderGate
