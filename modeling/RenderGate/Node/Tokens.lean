import RenderGate.Node.Basic

/-!
# Token sequences

An abstract tree as a flat list of texts in pre-order, written on one walk over the tree: every node
yields its class name, and a node with a name yields a second token.  Declared names and attributes
keep their text there; all other names share one token each for references and for bindings, so
renaming a variable changes nothing.
-/

namespace RenderGate

namespace Kind

/-- The token after the class name, if the kind carries a name. -/
def nameToken : Kind → Option String
  | .functionDef declared | .asyncFunctionDef declared | .classDef declared =>
      some ("NAME:" ++ declared)
  | .alias _ | .exceptHandler _ | .matchAs | .matchStar | .typeAlias | .typeVar | .paramSpec
  | .typeVarTuple => some "NAME:var"
  | .name _ | .arg _ => some "ID:identifier"
  | .attribute attr => some ("ATTR:" ++ attr)
  | _ => none

def tokens (k : Kind) : List String := k.typeName :: k.nameToken.toList

end Kind

namespace Node

/-- The tokens of a tree, put behind each other on a walk from left to right. -/
def tokens (n : Node) : List String :=
  (Rose.walk .rightward (fun out _ k => out ++ k.tokens) [(0, n)] (#[] : Array String)).toList

end Node

namespace Tokens

def joined (tokens : List String) : String := " ".intercalate tokens

def distinct (tokens : List String) : Nat := tokens.eraseDups.length

end Tokens

end RenderGate
