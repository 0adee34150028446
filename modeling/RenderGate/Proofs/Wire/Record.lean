import RenderGate.Proofs.Double.Exact
import RenderGate.Proofs.Table
import RenderGate.Wire.Record

/-!
# Reading back what was written

A type travels faithfully (`RoundTrips`) if every sound value of it is read back from its wire form,
and if whatever is read is sound.  A value is sound if JSON can show it, which leaves out the
doubles that are not finite.  Writing what was read then yields a normal form: reading and writing
it again changes nothing.
-/

namespace RenderGate

namespace Json

/-- A number as a JSON value holds it: a finite double, or a whole number of at most 64 bits. -/
def Number.Held : Number → Prop
  | .int n => -2 ^ 63 ≤ n ∧ n < 2 ^ 64
  | .float x => x.isFinite = true

/-- A value all of whose numbers are held. -/
inductive Held : Json → Prop where
  | null : Held .null
  | bool (b : Bool) : Held (.bool b)
  | number {n : Number} (h : n.Held) : Held (.number n)
  | string (s : String) : Held (.string s)
  | array {items : List Json} (h : ∀ j ∈ items, Held j) : Held (.array items)
  | object {members : List (String × Json)} (h : ∀ e ∈ members, Held e.2) : Held (.object members)

/-- Sound values are read back from what is written of them, and only sound values are read. -/
structure RoundTrips {α : Type} (Sound : α → Prop) (write : α → Json) (read : Json → Option α) :
    Prop where
  read_write : ∀ x, Sound x → read (write x) = some x
  sound : ∀ j x, Held j → read j = some x → Sound x

/-- Values are written as objects with a member for every given field and with no other one. -/
def WritesFields {α : Type} (write : α → Json) (fields : List String) : Prop :=
  ∀ x, ∃ members, write x = .object members ∧ (members.map Prod.fst).Perm fields

/-- Where an object that is read lacks a field, the field is written with the given value. -/
def FillsIn {α : Type} (write : α → Json) (read : Json → Option α) (field : String)
    (value : Json) : Prop :=
  ∀ members x, read (.object members) = some x → members.lookup field = none →
    (write x).get? field = some value

/-- A type travels if it does so faithfully and what was written of what was read is in normal form:
it is read back as the same value. -/
structure Travels {α : Type} (Sound : α → Prop) (write : α → Json) (read : Json → Option α) : Prop
    extends RoundTrips Sound write read where
  normal : ∀ j x, Held j → read j = some x → read (write x) = some x

theorem RoundTrips.travels {α : Type} {Sound : α → Prop} {write : α → Json}
    {read : Json → Option α} (h : RoundTrips Sound write read) : Travels Sound write read :=
  ⟨h, fun j x hj hx => h.read_write x (h.sound j x hj hx)⟩

@[simp] theorem float?_ofFloat {x : Float} (h : x.isFinite = true) :
    (ofFloat x).float? = some x := by
  rw [ofFloat, if_pos h]
  rfl

theorem isFinite_of_float? {j : Json} {x : Float} (hj : Held j) (h : j.float? = some x) :
    x.isFinite = true := by
  cases hj with
  | number hn =>
      rename_i n
      cases n with
      | int n =>
        obtain rfl := Option.some.inj h
        exact Double.isFinite_ofInt (by have := hn.1; have := hn.2; omega)
      | float y =>
          obtain rfl := Option.some.inj h
          exact hn
  | _ => exact nomatch h

theorem roundTrips_float : RoundTrips (fun x => x.isFinite = true) ofFloat float? :=
  ⟨fun _ h => float?_ofFloat h, fun _ _ hj h => isFinite_of_float? hj h⟩

theorem roundTrips_nat : RoundTrips (fun _ => True) ofNat nat? :=
  ⟨fun _ _ => rfl, fun _ _ _ _ => trivial⟩

theorem roundTrips_text : RoundTrips (fun _ => True) Json.string text? :=
  ⟨fun _ _ => rfl, fun _ _ _ _ => trivial⟩

section combined

variable {α β : Type} {Sound : α → Prop} {write : α → Json} {read : Json → Option α}

theorem mapM_map_eq_some {f : α → β} {g : β → Option α} {xs : List α}
    (h : ∀ x ∈ xs, g (f x) = some x) : (xs.map f).mapM g = some xs := by
  induction xs with
  | nil => rfl
  | cons x xs ih =>
      obtain ⟨hx, hxs⟩ := List.forall_mem_cons.mp h
      rw [List.map_cons, List.mapM_cons, hx, ih hxs]
      rfl

theorem exists_of_mem_mapM {g : β → Option α} {ys : List β} {xs : List α}
    (h : ys.mapM g = some xs) : ∀ x ∈ xs, ∃ y ∈ ys, g y = some x := by
  induction ys generalizing xs with
  | nil =>
      obtain rfl := Option.some.inj h
      exact fun _ => nofun
  | cons y ys ih =>
      rw [List.mapM_cons] at h
      obtain ⟨x, hx, h⟩ := Option.bind_eq_some_iff.mp h
      obtain ⟨xs', hxs, h⟩ := Option.bind_eq_some_iff.mp h
      obtain rfl := Option.some.inj h
      refine List.forall_mem_cons.mpr ⟨⟨y, List.mem_cons_self, hx⟩, fun x' hx' => ?_⟩
      obtain ⟨y', hy', h'⟩ := ih hxs x' hx'
      exact ⟨y', List.mem_cons_of_mem y hy', h'⟩

/-- Lists travel if their items do. -/
theorem RoundTrips.list (h : RoundTrips Sound write read) :
    RoundTrips (fun xs => ∀ x ∈ xs, Sound x) (fun xs => .array (xs.map write)) (listOf? read) where
  read_write xs hxs := mapM_map_eq_some fun x hx => h.read_write x (hxs x hx)
  sound j xs hj hxs := by
    obtain ⟨ys, hys, hread⟩ := Option.bind_eq_some_iff.mp hxs
    cases hj with
    | array hitems =>
        obtain rfl := Option.some.inj hys
        intro x hx
        obtain ⟨y, hy, hyx⟩ := exists_of_mem_mapM hread x hx
        exact h.sound y x (hitems y hy) hyx
    | _ => exact nomatch hys

/-- Tables travel if their values do. -/
theorem RoundTrips.table (h : RoundTrips Sound write read) :
    RoundTrips (fun t : Table α => ∀ e ∈ t.entries, Sound e.2) (ofTableWith write)
      (tableOf? read) where
  read_write t ht := by
    have hread : (t.entries.map fun e => (e.1, write e.2)).mapM
        (fun e => (read e.2).map fun x => (e.1, x)) = some t.entries :=
      mapM_map_eq_some fun e he => by rw [h.read_write e.2 (ht e he)]; rfl
    show Option.bind (List.mapM _ _) _ = _
    rw [hread]
    exact congrArg some t.ofList_entries
  sound j t hj ht := by
    obtain ⟨ms, hms, h'⟩ := Option.bind_eq_some_iff.mp ht
    obtain ⟨es, hes, heq⟩ := Option.bind_eq_some_iff.mp h'
    obtain rfl := Option.some.inj heq
    cases hj with
    | object hmembers =>
        obtain rfl := Option.some.inj hms
        intro e he
        obtain ⟨y, hy, hyx⟩ := exists_of_mem_mapM hes e (Table.mem_of_mem_entries_ofList he)
        obtain ⟨x, hx, rfl⟩ := Option.map_eq_some_iff.mp hyx
        exact h.sound y.2 x (hmembers y hy) hx
    | _ => exact nomatch hms

end combined

section records

variable {α : Type} {Sound : α → Prop} {write : α → Json} {read : Json → Option α}
variable {fields : List String} {members : List (String × Json)}

theorem held_of_record? {j : Json} (hj : Held j) (h : j.record? fields = some members) :
    ∀ e ∈ members, Held e.2 := by
  cases hj with
  | object hmembers =>
      obtain rfl := Option.some.inj h
      exact hmembers
  | array hitems =>
      simp only [record?, Option.ite_none_right_eq_some, Option.some.injEq] at h
      obtain ⟨-, rfl⟩ := h
      exact fun e he => hitems _ (List.of_mem_zip he).2
  | _ => exact nomatch h

theorem held_of_leadingRecord? {j : Json} (hj : Held j)
    (h : j.leadingRecord? fields = some members) : ∀ e ∈ members, Held e.2 := by
  cases hj with
  | object hmembers =>
      obtain rfl := Option.some.inj h
      exact hmembers
  | array hitems =>
      simp only [leadingRecord?, Option.ite_none_right_eq_some, Option.some.injEq] at h
      obtain ⟨-, rfl⟩ := h
      exact fun e he => hitems _ (List.of_mem_zip he).2
  | _ => exact nomatch h

theorem mem_of_lookup {name : String} {j : Json} (h : members.lookup name = some j) :
    (name, j) ∈ members := by
  obtain ⟨before, after, rfl, -⟩ := List.lookup_eq_some_iff.mp h
  exact List.mem_append_right before List.mem_cons_self

theorem RoundTrips.sound_required (h : RoundTrips Sound write read)
    (hmembers : ∀ e ∈ members, Held e.2) {name : String} {x : α}
    (hx : required members name read = some x) : Sound x := by
  obtain ⟨j, hj, hread⟩ := Option.bind_eq_some_iff.mp hx
  exact h.sound j x (hmembers _ (mem_of_lookup hj)) hread

theorem RoundTrips.sound_optional (h : RoundTrips Sound write read)
    (hmembers : ∀ e ∈ members, Held e.2) {name : String} {x : Option α}
    (hx : optional read (members.lookup name) = some x) : ∀ y ∈ x, Sound y := by
  cases hj : members.lookup name with
  | none =>
      rw [hj] at hx
      obtain rfl := Option.some.inj hx
      exact fun _ => nofun
  | some j =>
      rw [hj] at hx
      have hheld := hmembers _ (mem_of_lookup hj)
      by_cases hnull : j = .null
      · rw [hnull] at hx
        obtain rfl := Option.some.inj hx
        exact fun _ => nofun
      · have hmap : (read j).map some = some x := by
          cases j with
          | null => exact absurd rfl hnull
          | _ => exact hx
        obtain ⟨y, hy, rfl⟩ := Option.map_eq_some_iff.mp hmap
        exact fun z hz => Option.some.inj hz ▸ h.sound j y hheld hy

theorem eq_none_of_optional {name : String} {x : Option α}
    (hx : optional read (members.lookup name) = some x) (hmissing : members.lookup name = none) :
    x = none := by
  rw [hmissing] at hx
  exact (Option.some.inj hx).symm

@[simp] theorem lookup_entries_ofList (es : List (String × Json)) (name : String) :
    (Table.ofList es).entries.lookup name = es.reverse.lookup name :=
  Table.get?_ofList es name

@[simp] theorem required_ofList (es : List (String × Json)) (name : String) :
    required (Table.ofList es).entries name read = (es.reverse.lookup name).bind read :=
  congrArg (fun j => j.bind read) (lookup_entries_ofList es name)

@[simp] theorem optional_ofText? (s : Option String) :
    optional text? (some (ofText? s)) = some s := by
  cases s <;> rfl

@[simp] theorem text?_string (s : String) : (Json.string s).text? = some s := rfl

@[simp] theorem nat?_ofNat (n : Nat) : (ofNat n).nat? = some n := rfl

@[simp] theorem record?_ofMembers (es : List (String × Json)) :
    (ofMembers es).record? fields = some (Table.ofList es).entries := rfl

@[simp] theorem leadingRecord?_ofMembers (es : List (String × Json)) :
    (ofMembers es).leadingRecord? fields = some (Table.ofList es).entries := rfl

theorem get?_ofMembers (es : List (String × Json)) (name : String) :
    (ofMembers es).get? name = es.reverse.lookup name :=
  lookup_entries_ofList es name

theorem writesFields_ofMembers {α : Type} {members : α → List (String × Json)}
    (h : ∀ x, (members x).map Prod.fst = fields) (hfields : fields.Nodup) :
    WritesFields (fun x => ofMembers (members x)) fields := fun x => by
  refine ⟨_, rfl, ?_⟩
  rw [← h x] at hfields ⊢
  exact Table.keys_ofList_perm hfields

/-- A field is filled in with the value that is read where it is missing. -/
theorem fillsIn_ofMembers {β : Type} {write : α → List (String × Json)} {name : String}
    (field : α → β) (form : β → Json) (value : β)
    (hwrite : ∀ x, (write x).reverse.lookup name = some (form (field x)))
    (hread : ∀ members x, read (.object members) = some x → members.lookup name = none →
      field x = value) :
    FillsIn (fun x => ofMembers (write x)) read name (form value) := by
  intro members x hx hmissing
  rw [get?_ofMembers, hwrite, hread members x hx hmissing]

end records

end Json
end RenderGate
