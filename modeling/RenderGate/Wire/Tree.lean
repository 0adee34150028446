import RenderGate.Node.Basic
import RenderGate.Wire.Record

/-!
# Abstract trees on the wire

A node is a record of its kind and its children.  A kind without payload is a bare variant name, and
one with a payload is an object with the variant as its only member.
-/

namespace RenderGate

namespace ExprContext

def toJson (c : ExprContext) : Json := .string c.name

def ofJson? (j : Json) : Option ExprContext := j.variant?.bind ofName?

end ExprContext

namespace Operator

def toJson (o : Operator) : Json := .string o.name

def ofJson? (j : Json) : Option Operator := j.variant?.bind ofName?

end Operator

namespace Kind

def payload : Kind → Option Json
  | .functionDef declared | .asyncFunctionDef declared | .classDef declared
  | .arg declared | .alias declared => some (.ofMembers [("name", .string declared)])
  | .attribute attr => some (.ofMembers [("attr", .string attr)])
  | .name id => some (.ofMembers [("id", .string id)])
  | .keyword bound => some (.ofMembers [("arg", .ofText? bound)])
  | .exceptHandler bound => some (.ofMembers [("name", .ofText? bound)])
  | .context c => some c.toJson
  | .op o => some o.toJson
  | _ => none

def toJson (k : Kind) : Json :=
  match k.payload with
  | some p => .object [(k.variantName, p)]
  | none => .string k.variantName

def textIn? (field : String) (payload : Json) : Option String :=
  payload.members?.bind fun members => Json.required members field Json.text?

/-- The text in a field of a payload, which may be missing or null. -/
def optionalTextIn? (field : String) (payload : Json) : Option (Option String) :=
  payload.members?.bind fun members => Json.optional Json.text? (members.lookup field)

def ofPayload? (variant : String) (payload : Json) : Option Kind :=
  match variant with
  | "FunctionDef" => .functionDef <$> textIn? "name" payload
  | "AsyncFunctionDef" => .asyncFunctionDef <$> textIn? "name" payload
  | "ClassDef" => .classDef <$> textIn? "name" payload
  | "Arg" => .arg <$> textIn? "name" payload
  | "Alias" => .alias <$> textIn? "name" payload
  | "Attribute" => .attribute <$> textIn? "attr" payload
  | "Name" => .name <$> textIn? "id" payload
  | "Keyword" => .keyword <$> optionalTextIn? "arg" payload
  | "ExceptHandler" => .exceptHandler <$> optionalTextIn? "name" payload
  | "Context" => .context <$> ExprContext.ofJson? payload
  | "Op" => .op <$> Operator.ofJson? payload
  | _ =>
      match payload with
      | .null => plain? variant
      | _ => none

def ofJson? : Json → Option Kind
  | .string variant => plain? variant
  | .object [(variant, payload)] => ofPayload? variant payload
  | _ => none

end Kind

namespace Node

mutual

def toJson : Node → Json
  | .node k cs => .object [("children", .array (forestToJson cs)), ("kind", k.toJson)]

def forestToJson : List Node → List Json
  | [] => []
  | c :: cs => toJson c :: forestToJson cs

end

mutual

def ofJson? : Json → Option Node
  | .object ms => do
      let kind ← Json.required ms "kind" Kind.ofJson?
      return .of kind (← childrenOf? ms)
  | .array [k, .array cs] => do
      let kind ← Kind.ofJson? k
      return .of kind (← forestOfJson? cs)
  | _ => none

def childrenOf? : List (String × Json) → Option (List Node)
  | [] => none
  | ("children", .array cs) :: _ => forestOfJson? cs
  | ("children", _) :: _ => none
  | _ :: ms => childrenOf? ms

def forestOfJson? : List Json → Option (List Node)
  | [] => some []
  | j :: js => do
      let c ← ofJson? j
      return c :: (← forestOfJson? js)

end

end Node

end RenderGate
