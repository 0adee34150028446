import RenderGate.Proofs.Wire.Record
import RenderGate.Wire.Tree

/-!
# Abstract trees travel

A node of any kind is read back from what is written of it, and so is a tree of any depth: reading
follows the children as writing does.
-/

namespace RenderGate

open Json

theorem ExprContext.roundTrips :
    RoundTrips (fun _ => True) ExprContext.toJson ExprContext.ofJson? :=
  ⟨fun c _ => c.ofName?_name, fun _ _ _ _ => trivial⟩

theorem Operator.roundTrips : RoundTrips (fun _ => True) Operator.toJson Operator.ofJson? :=
  ⟨fun o _ => o.ofName?_name, fun _ _ _ _ => trivial⟩

namespace Kind

/-- Every kind without payload is found under its variant name. -/
theorem plain?_variantName {k : Kind} (h : k.payload = none) : plain? k.variantName = some k := by
  cases k <;> first | exact absurd h (Option.some_ne_none _) | decide +kernel

theorem ofJson?_toJson (k : Kind) : ofJson? k.toJson = some k := by
  cases h : k.payload with
  | none =>
      rw [toJson, h]
      exact plain?_variantName h
  | some p =>
      cases k with
      | keyword bound => cases bound <;> rfl
      | exceptHandler bound => cases bound <;> rfl
      | context c => cases c <;> rfl
      | op o => cases o <;> rfl
      | _ => first | exact absurd h.symm (Option.some_ne_none _) | rfl

theorem roundTrips : RoundTrips (fun _ => True) toJson ofJson? :=
  ⟨fun k _ => k.ofJson?_toJson, fun _ _ _ _ => trivial⟩

theorem optionalTextIn?_of_lookup_eq_none {members : List (String × Json)} {field : String}
    (h : members.lookup field = none) : optionalTextIn? field (.object members) = some none := by
  show Json.optional Json.text? (members.lookup field) = some none
  rw [h]
  rfl

/-- A keyword argument whose name is missing comes back with null for it. -/
theorem toJson_of_keyword {members : List (String × Json)} {k : Kind}
    (hk : ofJson? (.object [("Keyword", .object members)]) = some k)
    (h : members.lookup "arg" = none) :
    k.toJson = .object [("Keyword", .object [("arg", .null)])] := by
  have hread : Kind.keyword <$> optionalTextIn? "arg" (.object members) = some k := hk
  rw [optionalTextIn?_of_lookup_eq_none h] at hread
  obtain rfl := Option.some.inj hread
  rfl

/-- A handler whose name is missing comes back with null for it. -/
theorem toJson_of_exceptHandler {members : List (String × Json)} {k : Kind}
    (hk : ofJson? (.object [("ExceptHandler", .object members)]) = some k)
    (h : members.lookup "name" = none) :
    k.toJson = .object [("ExceptHandler", .object [("name", .null)])] := by
  have hread : Kind.exceptHandler <$> optionalTextIn? "name" (.object members) = some k := hk
  rw [optionalTextIn?_of_lookup_eq_none h] at hread
  obtain rfl := Option.some.inj hread
  rfl

end Kind

namespace Node

mutual

theorem ofJson?_toJson (n : Node) : ofJson? n.toJson = some n := by
  cases n with
  | node k cs =>
      simp [toJson, ofJson?, required, childrenOf?, List.lookup_cons, k.ofJson?_toJson,
        forestOfJson?_forestToJson cs, of]

theorem forestOfJson?_forestToJson (cs : List Node) :
    forestOfJson? (forestToJson cs) = some cs := by
  cases cs with
  | nil => rfl
  | cons c cs =>
      simp [forestToJson, forestOfJson?, ofJson?_toJson c, forestOfJson?_forestToJson cs]

end

theorem roundTrips : RoundTrips (fun _ => True) toJson ofJson? :=
  ⟨fun n _ => n.ofJson?_toJson, fun _ _ _ _ => trivial⟩

theorem writesFields : WritesFields toJson ["kind", "children"] := by
  rintro ⟨kind, children⟩
  exact ⟨_, rfl, .swap _ _ _⟩

end Node

end RenderGate
