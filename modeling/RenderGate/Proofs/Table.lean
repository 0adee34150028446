import RenderGate.Table
import Mathlib.Algebra.BigOperators.Group.List.Lemmas
import Mathlib.Algebra.GroupWithZero.Nat
import Mathlib.Data.List.Nodup
import Mathlib.Data.List.Perm.Subperm

/-!
# Lookup in tables

A value put into a table is found under its key and changes nothing under other keys.  So a table of
a list of entries holds, under each key, the last entry with this key, and a tally counts.
-/

namespace RenderGate.Table

variable {α β : Type}

theorem lookup_insertEntry_of_ne {key other : String} (h : other ≠ key) (value : α)
    (es : List (String × α)) : (insertEntry key value es).lookup other = es.lookup other := by
  induction es with
  | nil => rw [insertEntry, List.lookup_cons, beq_false_of_ne h]
  | cons e es ih =>
      rw [insertEntry]
      split
      · rw [List.lookup_cons, beq_false_of_ne h]
      · split
        · rw [List.lookup_cons, List.lookup_cons, ih]
        · rename_i h₁ h₂
          have he : other ≠ e.1 := by
            rwa [← eq_of_not_lt h₁ h₂]
          rw [List.lookup_cons, List.lookup_cons, beq_false_of_ne h, beq_false_of_ne he]

theorem get?_insert (t : Table α) (key other : String) (value : α) :
    (t.insert key value).get? other = if other = key then some value else t.get? other := by
  split
  · rename_i h
    rw [h, get?_insert_self]
  · rename_i h
    exact lookup_insertEntry_of_ne h value t.entries

theorem get?_foldl_insert_of_forall_ne {key : String} {es : List (String × α)} (t : Table α)
    (h : ∀ e ∈ es, e.1 ≠ key) :
    (es.foldl (fun t e => t.insert e.1 e.2) t).get? key = t.get? key := by
  induction es generalizing t with
  | nil => rfl
  | cons e es ih =>
      rw [List.foldl_cons, ih _ fun d hd => h d (List.mem_cons_of_mem e hd), get?_insert,
        if_neg (h e List.mem_cons_self).symm]

/-- The last entry with a key counts. -/
theorem get?_ofList_append (before after : List (String × α)) (key : String) (value : α)
    (h : ∀ e ∈ after, e.1 ≠ key) :
    (ofList (before ++ (key, value) :: after)).get? key = some value := by
  rw [ofList, List.foldl_append, List.foldl_cons, get?_foldl_insert_of_forall_ne _ h,
    get?_insert_self]

theorem get?_foldl_insert_congr {t u : Table α} {key : String} (h : t.get? key = u.get? key)
    (es : List (String × α)) : (es.foldl (fun t e => t.insert e.1 e.2) t).get? key =
      (es.foldl (fun t e => t.insert e.1 e.2) u).get? key := by
  induction es generalizing t u with
  | nil => exact h
  | cons e es ih =>
      rw [List.foldl_cons, List.foldl_cons]
      exact ih (by rw [get?_insert, get?_insert, h])

/-- Under a key that first entries do not have, only the entries after them count. -/
theorem get?_ofList_append_congr {before before' : List (String × α)} (after : List (String × α))
    {key : String} (h : ∀ e ∈ before, e.1 ≠ key) (h' : ∀ e ∈ before', e.1 ≠ key) :
    (ofList (before ++ after)).get? key = (ofList (before' ++ after)).get? key := by
  rw [ofList, ofList, List.foldl_append, List.foldl_append]
  refine get?_foldl_insert_congr ?_ after
  rw [get?_foldl_insert_of_forall_ne _ h, get?_foldl_insert_of_forall_ne _ h']

theorem mem_of_mem_entries_foldl {e : String × α} {es : List (String × α)} (t : Table α)
    (h : e ∈ (es.foldl (fun t e => t.insert e.1 e.2) t).entries) : e ∈ t.entries ∨ e ∈ es := by
  induction es generalizing t with
  | nil => exact .inl h
  | cons d ds ih =>
      rcases ih _ h with h | h
      · rcases mem_insertEntry h with rfl | h
        · exact .inr List.mem_cons_self
        · exact .inl h
      · exact .inr (List.mem_cons_of_mem d h)

theorem mem_of_mem_entries_ofList {e : String × α} {es : List (String × α)}
    (h : e ∈ (ofList es).entries) : e ∈ es :=
  (mem_of_mem_entries_foldl empty h).resolve_left List.not_mem_nil

theorem mem_of_mem_keys_ofList {key : String} {es : List (String × α)}
    (h : key ∈ (ofList es).keys) : key ∈ es.map Prod.fst := by
  obtain ⟨e, he, rfl⟩ := List.mem_map.mp h
  exact List.mem_map_of_mem (mem_of_mem_entries_ofList he)

/-- No key occurs twice. -/
theorem nodup_keys (t : Table α) : t.keys.Nodup := by
  refine List.pairwise_map.mpr (t.increasing.imp fun h heq => ?_)
  rw [heq] at h
  exact String.lt_irrefl _ h

theorem length_entries_ofList_le (es : List (String × α)) :
    (ofList es).entries.length ≤ es.length := by
  have hsub : (ofList es).keys ⊆ es.map Prod.fst := fun key h => mem_of_mem_keys_ofList h
  have hle := (List.subperm_of_subset (nodup_keys _) hsub).length_le
  rwa [keys, List.length_map, List.length_map] at hle

def tally (texts : List String) : Table Nat := texts.foldl increment empty

theorem get?_foldl_increment (texts : List String) (t : Table Nat) (key : String) :
    (texts.foldl increment t).get? key =
      if key ∈ texts then some ((t.get? key).getD 0 + texts.count key) else t.get? key := by
  induction texts generalizing t with
  | nil => rfl
  | cons x xs ih =>
      rw [List.foldl_cons, ih, increment, get?_insert, List.count_cons]
      by_cases h : key = x
      · subst h
        by_cases hmem : key ∈ xs
        · simp [hmem, Nat.add_comm, Nat.add_assoc]
        · simp [hmem, List.count_eq_zero_of_not_mem]
      · simp [h, Ne.symm h]

/-- A tally holds how often each text occurs that does. -/
theorem get?_tally (texts : List String) (key : String) :
    (tally texts).get? key = if key ∈ texts then some (texts.count key) else none := by
  rw [tally, get?_foldl_increment, show empty.get? key = none from rfl, Option.getD_none,
    Nat.zero_add]

theorem getD_tally (texts : List String) (key : String) :
    ((tally texts).get? key).getD 0 = texts.count key := by
  rw [get?_tally]
  split
  · rfl
  · rename_i h
    exact (List.count_eq_zero_of_not_mem h).symm

/-- Where no key occurs twice, an entry is found under its key. -/
theorem lookup_eq_some_iff_of_nodup {es : List (String × α)} (h : (es.map Prod.fst).Nodup)
    {key : String} {value : α} : es.lookup key = some value ↔ (key, value) ∈ es := by
  induction es with
  | nil => simp
  | cons e es ih =>
      rw [List.map_cons, List.nodup_cons] at h
      rw [List.lookup_cons, List.mem_cons]
      by_cases hkey : key = e.1
      · have hout : (key, value) ∉ es := fun hin =>
          h.1 (hkey ▸ List.mem_map_of_mem (f := Prod.fst) hin)
        simp [← hkey, hout, Prod.ext_iff, eq_comm]
      · rw [beq_false_of_ne hkey, ih h.2]
        simp [Prod.ext_iff, hkey]

theorem lookup_eq_of_perm {es fs : List (String × α)} (h : es.Perm fs)
    (hes : (es.map Prod.fst).Nodup) (key : String) : es.lookup key = fs.lookup key := by
  have hfs : (fs.map Prod.fst).Nodup := (h.map Prod.fst).nodup_iff.mp hes
  refine Option.ext fun value => ?_
  rw [lookup_eq_some_iff_of_nodup hes, lookup_eq_some_iff_of_nodup hfs, h.mem_iff]

theorem get?_eq_some_iff (t : Table α) (key : String) (value : α) :
    t.get? key = some value ↔ (key, value) ∈ t.entries :=
  lookup_eq_some_iff_of_nodup (nodup_keys t)

/-- Tables with the same value under every key are equal. -/
theorem ext_get? {s t : Table α} (h : ∀ key, s.get? key = t.get? key) : s = t := by
  have nodup : ∀ u : Table α, u.entries.Nodup := fun u =>
    List.Nodup.of_map Prod.fst (nodup_keys u)
  have hperm : s.entries.Perm t.entries := by
    refine (List.perm_ext_iff_of_nodup (nodup s) (nodup t)).mpr fun e => ?_
    rw [← get?_eq_some_iff, ← get?_eq_some_iff, h]
  refine ext (hperm.eq_of_pairwise (fun a b _ _ hab hba => ?_) s.increasing t.increasing)
  exact absurd (String.lt_trans hab hba) (String.lt_irrefl _)

theorem mem_keys_iff {t : Table α} {key : String} : key ∈ t.keys ↔ ∃ v, t.get? key = some v := by
  simp [keys, get?_eq_some_iff]

theorem mem_keys_tally {key : String} {texts : List String} :
    key ∈ (tally texts).keys ↔ key ∈ texts := by
  simp [mem_keys_iff, get?_tally]

/-- A tally does not depend on the order of the texts. -/
theorem tally_eq_of_perm {texts others : List String} (h : texts.Perm others) :
    tally texts = tally others := by
  refine ext_get? fun key => ?_
  rw [get?_tally, get?_tally, h.count_eq]
  simp only [h.mem_iff]

theorem values_eq_map_keys (t : Table Nat) :
    t.values = t.keys.map fun key => (t.get? key).getD 0 := by
  rw [values, keys, List.map_map]
  refine List.map_congr_left fun e he => ?_
  rw [Function.comp_apply, (get?_eq_some_iff t e.1 e.2).mpr he]
  rfl

/-- All counts of a tally together are the number of the texts. -/
theorem sum_values_tally (texts : List String) : (tally texts).values.sum = texts.length := by
  have hkeys : (tally texts).keys.Perm texts.dedup :=
    (List.perm_ext_iff_of_nodup (nodup_keys _) texts.nodup_dedup).mpr fun key => by
      rw [mem_keys_tally, List.mem_dedup]
  rw [values_eq_map_keys, (hkeys.map _).sum_eq]
  simp only [getD_tally]
  exact List.sum_map_count_dedup_eq_length texts

theorem get?_foldl_insert (t : Table α) (es : List (String × α)) (key : String) :
    (es.foldl (fun t e => t.insert e.1 e.2) t).get? key =
      (es.reverse.lookup key).or (t.get? key) := by
  induction es generalizing t with
  | nil => rfl
  | cons e es ih =>
      rw [List.foldl_cons, ih, get?_insert, List.reverse_cons, List.lookup_append, Option.or_assoc]
      congr 1
      by_cases h : key = e.1
      · rw [if_pos h, List.lookup_cons, h, beq_self_eq_true]
        rfl
      · rw [if_neg h, List.lookup_cons, beq_false_of_ne h]
        rfl

/-- Of several entries with one key the last one counts. -/
theorem get?_ofList (es : List (String × α)) (key : String) :
    (ofList es).get? key = es.reverse.lookup key := by
  rw [ofList, get?_foldl_insert]
  exact Option.or_none

/-- Of entries with different keys each is found under its key, and nothing else is. -/
theorem get?_ofList_eq_some_iff {es : List (String × α)} (h : (es.map Prod.fst).Nodup)
    {key : String} {value : α} : (ofList es).get? key = some value ↔ (key, value) ∈ es := by
  rw [get?_ofList, lookup_eq_some_iff_of_nodup (by rwa [List.map_reverse, List.nodup_reverse]),
    List.mem_reverse]

theorem get?_ofList_of_mem {es : List (String × α)} (h : (es.map Prod.fst).Nodup) {key : String}
    {value : α} (hmem : (key, value) ∈ es) : (ofList es).get? key = some value :=
  (get?_ofList_eq_some_iff h).mpr hmem

/-- Entries with different keys are all kept. -/
theorem keys_ofList_perm {es : List (String × α)} (h : (es.map Prod.fst).Nodup) :
    (ofList es).keys.Perm (es.map Prod.fst) := by
  refine (List.perm_ext_iff_of_nodup (nodup_keys _) h).mpr fun key =>
    ⟨mem_of_mem_keys_ofList, fun hkey => ?_⟩
  obtain ⟨e, he, rfl⟩ := List.mem_map.mp hkey
  exact List.mem_map_of_mem (f := Prod.fst) ((get?_eq_some_iff _ _ _).mp (get?_ofList_of_mem h he))

/-- A table is the table of its entries. -/
theorem ofList_entries (t : Table α) : ofList t.entries = t := by
  refine ext_get? fun key => ?_
  rw [get?_ofList]
  refine lookup_eq_of_perm (List.reverse_perm t.entries) ?_ key
  rw [List.map_reverse, List.nodup_reverse]
  exact nodup_keys t

/-- A table does not depend on the order in which entries with different keys are put into it. -/
theorem ofList_eq_of_perm {es fs : List (String × α)} (h : es.Perm fs)
    (hes : (es.map Prod.fst).Nodup) : ofList es = ofList fs := by
  refine ext_get? fun key => ?_
  rw [get?_ofList, get?_ofList]
  refine lookup_eq_of_perm
    ((List.reverse_perm es).trans (h.trans (List.reverse_perm fs).symm)) ?_ key
  rwa [List.map_reverse, List.nodup_reverse]

theorem lookup_units (keys : List String) (key : String) :
    (keys.map fun k => (k, ())).lookup key = if key ∈ keys then some () else none := by
  induction keys with
  | nil => rfl
  | cons k ks ih =>
      rw [List.map_cons, List.lookup_cons, ih]
      by_cases h : key = k
      · simp [h]
      · simp [beq_false_of_ne h, h]

/-- A table without values depends on which keys there are only. -/
theorem ofList_units_congr {keys others : List String} (h : ∀ key, key ∈ keys ↔ key ∈ others) :
    ofList (keys.map fun key => (key, ())) = ofList (others.map fun key => (key, ())) := by
  refine ext_get? fun key => ?_
  rw [get?_ofList, get?_ofList, ← List.map_reverse, ← List.map_reverse, lookup_units, lookup_units]
  simp only [List.mem_reverse, h]

/-- The keys that have some property are the same in two tables if all keys with it are in both. -/
theorem filter_keys_congr {s : Table α} {t : Table β} {p : String → Bool}
    (hs : ∀ key, p key = true → key ∈ s.keys) (ht : ∀ key, p key = true → key ∈ t.keys) :
    s.keys.filter p = t.keys.filter p := by
  have hperm : (s.keys.filter p).Perm (t.keys.filter p) := by
    refine (List.perm_ext_iff_of_nodup (s.nodup_keys.filter p) (t.nodup_keys.filter p)).mpr
      fun key => ?_
    rw [List.mem_filter, List.mem_filter]
    exact ⟨fun h => ⟨ht key h.2, h.2⟩, fun h => ⟨hs key h.2, h.2⟩⟩
  have hincreasing {γ : Type} (u : Table γ) : (u.keys.filter p).Pairwise (· < ·) :=
    (List.pairwise_map.mpr u.increasing).filter p
  refine hperm.eq_of_pairwise (fun a b _ _ hab hba => ?_) (hincreasing s) (hincreasing t)
  exact absurd (String.lt_trans hab hba) (String.lt_irrefl _)

theorem mem_keys_ofList_units {keys : List String} {key : String} :
    key ∈ (ofList (keys.map fun k => (k, ()))).keys ↔ key ∈ keys := by
  rw [mem_keys_iff]
  simp [get?_ofList, ← List.map_reverse, lookup_units]

theorem lookup_map {f : String → String} (hf : Function.Injective f) (g : String → α → β)
    (es : List (String × α)) (key : String) :
    (es.map fun e => (f e.1, g e.1 e.2)).lookup (f key) = (es.lookup key).map (g key) := by
  induction es with
  | nil => rfl
  | cons e es ih =>
      rw [List.map_cons, List.lookup_cons, List.lookup_cons, ih]
      by_cases h : key = e.1
      · simp [h]
      · rw [beq_false_of_ne h, beq_false_of_ne fun heq => h (hf heq)]

/-- Renaming the keys and changing the values changes what is found in the same way. -/
theorem get?_ofList_map {f : String → String} (hf : Function.Injective f) (g : String → α → β)
    (es : List (String × α)) (key : String) :
    (ofList (es.map fun e => (f e.1, g e.1 e.2))).get? (f key) =
      ((ofList es).get? key).map (g key) := by
  rw [get?_ofList, get?_ofList, ← List.map_reverse, lookup_map hf]

end RenderGate.Table
