import RenderGate.Concrete.Tree

/-!
# Source texts

A text as its bytes in UTF-8, to which the spans of a concrete tree refer.
-/

namespace RenderGate.Concrete

/-- A line and a column, both counted from one; columns count bytes. -/
structure Position where
  line : Nat
  column : Nat
deriving DecidableEq, Repr

structure Source where
  bytes : ByteArray

namespace Source

def ofText (text : String) : Source := ⟨text.toUTF8⟩

/-- The position after one more byte: a line feed starts a line. -/
def advance (p : Position) (byte : UInt8) : Position :=
  if byte = 10 then ⟨p.line + 1, 1⟩ else ⟨p.line, p.column + 1⟩

def position (s : Source) (offset : Nat) : Position :=
  (s.bytes.data.toList.take offset).foldl advance ⟨1, 1⟩

/-- The text that a node covers, unless it starts or ends inside a character. -/
def slice? (s : Source) (t : Tree) : Option String :=
  String.fromUTF8? (s.bytes.extract t.info.start t.info.stop)

def startOf (s : Source) (t : Tree) : Position := s.position t.info.start

end Source

end RenderGate.Concrete
