/-!
# Languages

The languages in which artifacts are written.
-/

namespace RenderGate

inductive Language where
  | python
deriving DecidableEq, Repr

namespace Language

def name : Language → String
  | .python => "python"

def extensions : Language → List String
  | .python => ["py", "pyi"]

end Language

def version : String := "0.1.0"

end RenderGate
