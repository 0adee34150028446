/-!
# Tables with text keys

A `Table α` holds values under text keys and lists them in increasing order of the keys, so two
tables with the same contents are equal.  Counts per node type, breakdowns of a score and
diagnostics are tables.
-/

namespace RenderGate

/-- Entries in strictly increasing order of their keys. -/
structure Table (α : Type) where
  entries : List (String × α)
  increasing : entries.Pairwise fun e f => e.1 < f.1

namespace Table

variable {α : Type}

@[ext] theorem ext {s t : Table α} (h : s.entries = t.entries) : s = t := by
  cases s
  cases t
  simp_all

instance [DecidableEq α] : DecidableEq (Table α) := fun s t =>
  if h : s.entries = t.entries then isTrue (ext h) else isFalse fun e => h (by rw [e])

def empty : Table α := ⟨[], .nil⟩

/-- Puts an entry at its place; a present entry of the same key gives way. -/
def insertEntry (key : String) (value : α) : List (String × α) → List (String × α)
  | [] => [(key, value)]
  | e :: es =>
      if key < e.1 then (key, value) :: e :: es
      else if e.1 < key then e :: insertEntry key value es
      else (key, value) :: es

theorem mem_insertEntry {key : String} {value : α} {es : List (String × α)} {e : String × α}
    (h : e ∈ insertEntry key value es) : e = (key, value) ∨ e ∈ es := by
  induction es with
  | nil => simpa [insertEntry] using h
  | cons d ds ih =>
      rw [insertEntry] at h
      split at h
      · simpa using h
      · split at h
        · rcases List.mem_cons.mp h with h | h
          · exact .inr (by simp [h])
          · rcases ih h with h | h
            · exact .inl h
            · exact .inr (by simp [h])
        · rcases List.mem_cons.mp h with h | h
          · exact .inl h
          · exact .inr (by simp [h])

theorem eq_of_not_lt {a b : String} (h : ¬ a < b) (g : ¬ b < a) : a = b :=
  String.le_antisymm (String.not_lt.mp g) (String.not_lt.mp h)

theorem increasing_insertEntry {key : String} {value : α} {es : List (String × α)}
    (h : es.Pairwise fun e f => e.1 < f.1) :
    (insertEntry key value es).Pairwise fun e f => e.1 < f.1 := by
  induction es with
  | nil => simp [insertEntry]
  | cons d ds ih =>
      obtain ⟨hd, hs⟩ := List.pairwise_cons.mp h
      rw [insertEntry]
      split
      · rename_i hk
        refine List.pairwise_cons.mpr ⟨fun e he => ?_, h⟩
        rcases List.mem_cons.mp he with rfl | he
        · exact hk
        · exact String.lt_trans hk (hd e he)
      · rename_i hk
        split
        · rename_i hl
          refine List.pairwise_cons.mpr ⟨fun e he => ?_, ih hs⟩
          rcases mem_insertEntry he with rfl | he
          · exact hl
          · exact hd e he
        · rename_i hl
          refine List.pairwise_cons.mpr ⟨fun e he => ?_, hs⟩
          have : key = d.1 := eq_of_not_lt hk hl
          simpa [this] using hd e he

def insert (t : Table α) (key : String) (value : α) : Table α :=
  ⟨insertEntry key value t.entries, increasing_insertEntry t.increasing⟩

def get? (t : Table α) (key : String) : Option α := t.entries.lookup key

/-- An inserted value is found under its key. -/
theorem get?_insert_self (t : Table α) (key : String) (value : α) :
    (t.insert key value).get? key = some value := by
  show (insertEntry key value t.entries).lookup key = some value
  induction t.entries with
  | nil => simp [insertEntry]
  | cons e es ih =>
      rw [insertEntry]
      split
      · simp
      · split
        · rename_i hk
          have hne : (key == e.1) = false :=
            beq_false_of_ne fun h => String.lt_irrefl e.1 (by rwa [h] at hk)
          rw [List.lookup_cons, hne]
          exact ih
        · simp

/-- The table of a list of entries; of several with one key the last one counts. -/
def ofList (entries : List (String × α)) : Table α :=
  entries.foldl (fun t e => t.insert e.1 e.2) empty

def keys (t : Table α) : List String := t.entries.map Prod.fst

def values (t : Table α) : List α := t.entries.map Prod.snd

/-- One more of what a key counts; a key that is absent counts nothing yet. -/
def increment (t : Table Nat) (key : String) : Table Nat := t.insert key ((t.get? key).getD 0 + 1)

end Table

end RenderGate
