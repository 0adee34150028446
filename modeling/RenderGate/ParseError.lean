import RenderGate.Concrete.Source

/-!
# Parse errors

Why a text has no abstract tree.  Most errors are faults at a position of the text; two concern the
parser as a whole.
-/

namespace RenderGate

open Concrete (Position)

inductive Fault where
  /-- The text is not well formed. -/
  | malformed (message : String)
  /-- The text is well formed and has no abstract counterpart. -/
  | unsupported (kind : String)
  /-- The text is a form that only Python 2 had. -/
  | legacy (construct : String)
  /-- Statements, expressions or patterns are nested beyond the limit. -/
  | tooDeep (limit : Nat)
deriving DecidableEq, Repr

inductive ParseError where
  | fault (fault : Fault) (position : Position)
  | parserInit (reason : String)
  | noTree
deriving DecidableEq, Repr

def Concrete.Position.text (p : Position) : String := toString p.line ++ ":" ++ toString p.column

def ParseError.message : ParseError → String
  | .fault (.malformed message) p => "syntax error at " ++ p.text ++ ": " ++ message
  | .fault (.unsupported kind) p => "unsupported syntax `" ++ kind ++ "` at " ++ p.text
  | .fault (.legacy construct) p => "python 2 `" ++ construct ++ "` at " ++ p.text
  | .fault (.tooDeep limit) p =>
      "nesting deeper than " ++ toString limit ++ " levels at " ++ p.text
  | .parserInit reason => "parser initialization failed: " ++ reason
  | .noTree => "parse failed"

end RenderGate
