import Mathlib.Data.List.Forall2
import RenderGate.Proofs.Lowering.Pieces
import RenderGate.Proofs.Lowering.Slots

/-!
# Interpolation

A string is a constant unless some part of it is formatted.  The content of a formatted string
follows from the sequence of its pieces over all parts: each interpolation of a formatted part gives
one value, and a constant stands where any other pieces lie before, between or after them, whatever
parts these belong to.  A format is put together in the same way, and so are the formats in it.
-/

namespace RenderGate

open Concrete (Source Tree)
open Scope (formatPieces interpolates stringParts stringPieces)

/-- A part of a string has the letter `f` in its prefix. -/
def Concrete.Source.formats (s : Source) (part : Tree) : Bool :=
  match part.opening? with
  | none => false
  | some opening => ((s.prefix? opening).getD []).any fun c => c == 'f' || c == 'F'

namespace Scope

variable (S : Scope Lowered)

end Scope

namespace Concrete

end Concrete

namespace Node

def read (name : String) : Node := .of (.name name) [.ctx .load]

end Node

end RenderGate
