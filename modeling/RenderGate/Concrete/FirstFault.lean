import RenderGate.ParseError
import RenderGate.Text.Blank

/-!
# The first fault of a text

A concrete tree with the fault flag at its root has no abstract tree.  The message names the fault
that comes first, found by going down into the first child that is flagged.
-/

namespace RenderGate.Concrete

def Info.isFault (i : Info) : Bool := i.error || i.missing

mutual

/-- The fault that is reached from a node by the first flagged child at every step. -/
def Tree.firstFault? : Tree → Option Tree
  | .node i cs => if i.isFault then some (.node i cs) else firstFaultAmong cs

def firstFaultAmong : List Tree → Option Tree
  | [] => none
  | c :: cs =>
      if (Tree.info c).faulty || (Tree.info c).missing then Tree.firstFault? c
      else firstFaultAmong cs

end

def snippetLimit : Nat := 32

/-- The part of a faulty text that a message shows: its first line, trimmed and cut off. -/
def snippet (text : String) : String :=
  String.ofList ((Text.trim (Text.firstLine text.toList)).take snippetLimit)

def Source.describe (s : Source) (t : Tree) : String :=
  if t.info.missing then "missing `" ++ t.kind ++ "`"
  else
    let shown := snippet ((s.slice? t).getD "")
    if shown.isEmpty then "invalid syntax" else "unexpected `" ++ shown ++ "`"

def Source.faultError (s : Source) (root : Tree) : ParseError :=
  match root.firstFault? with
  | some t => .fault (.malformed (s.describe t)) (s.startOf t)
  | none => .fault (.malformed "invalid syntax") (s.startOf root)

end RenderGate.Concrete
