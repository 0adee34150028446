import RenderGate.Json.Basic
import RenderGate.Proofs.Double.Equality

/-!
# Equality of JSON values

Values are compared with their doubles as numbers, at any depth.  Without NaN two values agree just
if they are equal once all zeros in them have lost their sign (`same_iff`), so to agree is an
equivalence.
-/

namespace RenderGate.Json

def Number.floats : Number → List Float
  | .int _ => []
  | .float x => [x]

def Number.unsigned : Number → Number
  | .int n => .int n
  | .float x => .float (Double.unsigned x)

mutual

def floats : Json → List Float
  | .number n => n.floats
  | .array items => itemFloats items
  | .object members => memberFloats members
  | _ => []

def itemFloats : List Json → List Float
  | [] => []
  | j :: js => j.floats ++ itemFloats js

def memberFloats : List (String × Json) → List Float
  | [] => []
  | e :: es => e.2.floats ++ memberFloats es

end

mutual

/-- A value where every zero has lost its sign. -/
def unsigned : Json → Json
  | .number n => .number n.unsigned
  | .array items => .array (unsignedItems items)
  | .object members => .object (unsignedMembers members)
  | j => j

def unsignedItems : List Json → List Json
  | [] => []
  | j :: js => j.unsigned :: unsignedItems js

def unsignedMembers : List (String × Json) → List (String × Json)
  | [] => []
  | e :: es => (e.1, e.2.unsigned) :: unsignedMembers es

end

theorem Number.same_iff {m n : Number} (hm : ∀ x ∈ m.floats, x.isNaN = false) :
    m.same n = true ↔ m.unsigned = n.unsigned := by
  cases m with
  | int m => cases n <;> simp [Number.same, Number.unsigned]
  | float x =>
      cases n with
      | int n => simp [Number.same, Number.unsigned]
      | float y =>
          rw [Number.same, Number.unsigned, Number.unsigned, Number.float.injEq,
            Double.unsigned_eq_iff]
          exact Double.beq_iff (hm x List.mem_cons_self)

mutual

theorem same_iff : ∀ {x y : Json}, (∀ f ∈ x.floats, f.isNaN = false) →
    (x.same y = true ↔ x.unsigned = y.unsigned)
  | .null, y, _ => by cases y <;> simp [same, unsigned]
  | .bool a, y, _ => by cases y <;> simp [same, unsigned]
  | .number m, y, h => by cases y <;> simp [same, unsigned, Number.same_iff h]
  | .string s, y, _ => by cases y <;> simp [same, unsigned]
  | .array items, y, h => by cases y <;> simp [same, unsigned, sameItems_iff h]
  | .object members, y, h => by cases y <;> simp [same, unsigned, sameMembers_iff h]

theorem sameItems_iff : ∀ {xs ys : List Json}, (∀ f ∈ itemFloats xs, f.isNaN = false) →
    (sameItems xs ys = true ↔ unsignedItems xs = unsignedItems ys)
  | [], ys, _ => by cases ys <;> simp [sameItems, unsignedItems]
  | x :: xs, [], _ => by simp [sameItems, unsignedItems]
  | x :: xs, y :: ys, h => by
      rw [sameItems, unsignedItems, unsignedItems, Bool.and_eq_true, List.cons.injEq,
        same_iff fun f hf => h f (List.mem_append_left _ hf),
        sameItems_iff fun f hf => h f (List.mem_append_right _ hf)]

theorem sameMembers_iff : ∀ {xs ys : List (String × Json)},
    (∀ f ∈ memberFloats xs, f.isNaN = false) →
    (sameMembers xs ys = true ↔ unsignedMembers xs = unsignedMembers ys)
  | [], ys, _ => by cases ys <;> simp [sameMembers, unsignedMembers]
  | (k, x) :: xs, [], _ => by simp [sameMembers, unsignedMembers]
  | (k, x) :: xs, (l, y) :: ys, h => by
      rw [sameMembers, unsignedMembers, unsignedMembers, Bool.and_eq_true, Bool.and_eq_true,
        List.cons.injEq, Prod.mk.injEq, beq_iff_eq,
        same_iff fun f hf => h f (List.mem_append_left _ hf),
        sameMembers_iff fun f hf => h f (List.mem_append_right _ hf)]

end

end RenderGate.Json
