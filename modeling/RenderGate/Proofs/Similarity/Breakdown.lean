import RenderGate.Proofs.Similarity.Relative
import RenderGate.Proofs.Similarity.Symmetry

/-!
# The breakdown of a comparison

What the comparison of two fingerprints says of each metric.  A metric has an entry unless it is
zero on both sides, and the entry is 1 just where both values agree.  It is 0 where one value is
zero and the other is not; only the weighted complexity can be so large that a smaller value is lost
beside it.  Types that do not occur on either side leave no trace.
-/

namespace RenderGate

open Double Similarity

section entries

/-- Entries of two lists with the same names meet where their names are equal. -/
theorem mem_zip_iff {ms ns : List (String × Float)} (h : ms.map Prod.fst = ns.map Prod.fst)
    (hnodup : (ms.map Prod.fst).Nodup) {m n : String × Float} :
    (m, n) ∈ ms.zip ns ↔ m ∈ ms ∧ n ∈ ns ∧ m.1 = n.1 := by
  induction ms generalizing ns with
  | nil => simp
  | cons a ms ih =>
      cases ns with
      | nil => simp
      | cons b ns =>
          obtain ⟨hname, hrest⟩ := List.cons.inj h
          obtain ⟨hout, hnodup⟩ := List.nodup_cons.mp hnodup
          have hms {m' : String × Float} (hm : m' ∈ ms) : m'.1 ≠ a.1 := fun heq =>
            hout (heq ▸ List.mem_map_of_mem hm)
          have hns {n' : String × Float} (hn : n' ∈ ns) : n'.1 ≠ a.1 := fun heq =>
            hout (hrest ▸ heq ▸ List.mem_map_of_mem hn)
          rw [List.zip_cons_cons, List.mem_cons, List.mem_cons, List.mem_cons, ih hrest hnodup,
            Prod.mk.injEq]
          constructor
          · rintro (⟨rfl, rfl⟩ | ⟨hm, hn, heq⟩)
            · exact ⟨.inl rfl, .inl rfl, hname⟩
            · exact ⟨.inr hm, .inr hn, heq⟩
          · rintro ⟨rfl | hm, rfl | hn, heq⟩
            · exact .inl ⟨rfl, rfl⟩
            · exact absurd heq.symm (hns hn)
            · exact absurd (heq.trans hname.symm) (hms hm)
            · exact .inr ⟨hm, hn, heq⟩

theorem sublist_names {α : Type} (name : α → String) (entry : α → Option Float) (ms : List α) :
    ((ms.filterMap fun m => (entry m).map fun z => (name m, z)).map Prod.fst).Sublist
      (ms.map name) := by
  induction ms with
  | nil => exact List.Sublist.refl []
  | cons m ms ih =>
      rw [List.filterMap_cons, List.map_cons]
      cases entry m with
      | none => exact ih.cons (name m)
      | some z => exact ih.cons_cons (name m)

end entries

namespace Fingerprint

variable {f g : Fingerprint}

/-- The name of the metric that all types make up together. -/
def histogramName : String := "node_type_histogram"

def entries (f g : Fingerprint) : List (String × Float) :=
  ((f.scalarMetrics.zip g.scalarMetrics).filterMap fun m =>
      (relative? m.1.2 m.2.2).map fun z => (m.1.1, z)) ++
    ((histograms? f.histogram g.histogram).map fun z => (histogramName, z)).toList

theorem breakdown_compare (f g : Fingerprint) :
    (f.compare g).breakdown = Table.ofList (f.entries g) := rfl

theorem score_compare (f g : Fingerprint) :
    (f.compare g).score = mean? (f.compare g).breakdown.values := rfl

theorem nodup_names (f : Fingerprint) :
    (f.scalarMetrics.map Prod.fst ++ [histogramName]).Nodup := by
  show ["node_count", "max_depth", "function_count", "class_count", "import_count",
    "complexity_score", "node_type_histogram"].Nodup
  decide

theorem nodup_names_entries (f g : Fingerprint) : ((f.entries g).map Prod.fst).Nodup := by
  have hscalar := sublist_names (fun m : (String × Float) × (String × Float) => m.1.1)
    (fun m => relative? m.1.2 m.2.2) (f.scalarMetrics.zip g.scalarMetrics)
  have hzip : (f.scalarMetrics.zip g.scalarMetrics).map (fun m => m.1.1) =
      f.scalarMetrics.map Prod.fst := rfl
  rw [hzip] at hscalar
  have hhistogram : (((histograms? f.histogram g.histogram).map fun z =>
      (histogramName, z)).toList.map Prod.fst).Sublist [histogramName] := by
    cases histograms? f.histogram g.histogram with
    | none => exact List.nil_sublist _
    | some z => exact List.Sublist.refl _
  rw [entries, List.map_append]
  exact f.nodup_names.sublist (hscalar.append hhistogram)

theorem eq_of_mem_scalarMetrics {name : String} {x y : Float} (hx : (name, x) ∈ f.scalarMetrics)
    (hy : (name, y) ∈ f.scalarMetrics) : x = y := by
  have hnodup := (List.nodup_append.mp f.nodup_names).1
  exact congrArg Prod.snd (List.inj_on_of_nodup_map hnodup hx hy rfl)

theorem histogramName_notMem (f : Fingerprint) (x : Float) :
    (histogramName, x) ∉ f.scalarMetrics := fun h =>
  (List.nodup_append.mp f.nodup_names).2.2 _ (List.mem_map_of_mem h) _
    (List.mem_singleton.mpr rfl) rfl

theorem mem_entries_iff {name : String} {z : Float} : (name, z) ∈ f.entries g ↔
    (∃ x y, (name, x) ∈ f.scalarMetrics ∧ (name, y) ∈ g.scalarMetrics ∧ relative? x y = some z) ∨
      name = histogramName ∧ histograms? f.histogram g.histogram = some z := by
  have hnames : f.scalarMetrics.map Prod.fst = g.scalarMetrics.map Prod.fst := rfl
  have hnodup := (List.nodup_append.mp f.nodup_names).1
  rw [entries, List.mem_append, List.mem_filterMap, Option.mem_toList, Option.map_eq_some_iff]
  refine or_congr ⟨?_, ?_⟩ ⟨?_, ?_⟩
  · rintro ⟨⟨⟨n, x⟩, ⟨n', y⟩⟩, hmem, hentry⟩
    obtain ⟨hx, hy, rfl⟩ := (mem_zip_iff hnames hnodup).mp hmem
    obtain ⟨z', hz, heq⟩ := Option.map_eq_some_iff.mp hentry
    obtain ⟨rfl, rfl⟩ := Prod.mk.inj heq
    exact ⟨x, y, hx, hy, hz⟩
  · rintro ⟨x, y, hx, hy, hz⟩
    exact ⟨((name, x), (name, y)), (mem_zip_iff hnames hnodup).mpr ⟨hx, hy, rfl⟩,
      Option.map_eq_some_iff.mpr ⟨z, hz, rfl⟩⟩
  · rintro ⟨z', hz, heq⟩
    obtain ⟨rfl, rfl⟩ := Prod.mk.inj heq
    exact ⟨rfl, hz⟩
  · rintro ⟨rfl, hz⟩
    exact ⟨z, hz, rfl⟩

/-- The entry of a metric that is a number. -/
theorem get?_breakdown {name : String} {x y : Float} (hx : (name, x) ∈ f.scalarMetrics)
    (hy : (name, y) ∈ g.scalarMetrics) : (f.compare g).breakdown.get? name = relative? x y := by
  refine Option.ext fun z => ?_
  rw [breakdown_compare, Table.get?_ofList_eq_some_iff (nodup_names_entries f g), mem_entries_iff]
  constructor
  · rintro (⟨x', y', hx', hy', hz⟩ | ⟨rfl, -⟩)
    · rwa [eq_of_mem_scalarMetrics hx' hx, eq_of_mem_scalarMetrics hy' hy] at hz
    · exact absurd hx (f.histogramName_notMem x)
  · exact fun hz => .inl ⟨x, y, hx, hy, hz⟩

/-- The entry of the types. -/
theorem get?_breakdown_histogram :
    (f.compare g).breakdown.get? histogramName = histograms? f.histogram g.histogram := by
  refine Option.ext fun z => ?_
  rw [breakdown_compare, Table.get?_ofList_eq_some_iff (nodup_names_entries f g), mem_entries_iff]
  constructor
  · rintro (⟨x, -, hx, -, -⟩ | ⟨-, hz⟩)
    · exact absurd hx (f.histogramName_notMem x)
    · exact hz
  · exact fun hz => .inr ⟨rfl, hz⟩

/-- The counts are small enough to be doubles, and the weighted complexity is a natural number. -/
structure Counted (f : Fingerprint) : Prop where
  nodeCount : f.nodeCount < 2 ^ 53
  maxDepth : f.maxDepth < 2 ^ 53
  functionCount : f.functionCount < 2 ^ 53
  classCount : f.classCount < 2 ^ 53
  importCount : f.importCount < 2 ^ 53
  complexityScore : Whole f.complexityScore
  countOf : ∀ key, f.countOf key < 2 ^ 53

structure Zero (f : Fingerprint) : Prop where
  scalar : ∀ m ∈ f.scalarMetrics, rat m.2 = 0
  countOf : ∀ key, f.countOf key = 0

namespace Counted

theorem whole (hf : f.Counted) : ∀ m ∈ f.scalarMetrics, Whole m.2 := by
  simp only [scalarMetrics, List.forall_mem_cons]
  exact ⟨whole_ofNat hf.nodeCount.le, whole_ofNat hf.maxDepth.le, whole_ofNat hf.functionCount.le,
    whole_ofNat hf.classCount.le, whole_ofNat hf.importCount.le, hf.complexityScore,
    List.forall_mem_nil _⟩

/-- Only the weighted complexity can be larger. -/
theorem rat_le (hf : f.Counted) {name : String} {x : Float} (hx : (name, x) ∈ f.scalarMetrics)
    (hname : name ≠ "complexity_score") : rat x ≤ 2 ^ 53 := by
  have hcount {n : ℕ} (h : n < 2 ^ 53) : rat (Float.ofNat n) ≤ 2 ^ 53 := by
    rw [rat_ofNat h.le]
    exact_mod_cast h.le
  simp only [scalarMetrics, List.mem_cons, Prod.mk.injEq, List.not_mem_nil, or_false] at hx
  rcases hx with ⟨-, rfl⟩ | ⟨-, rfl⟩ | ⟨-, rfl⟩ | ⟨-, rfl⟩ | ⟨-, rfl⟩ | ⟨rfl, -⟩
  · exact hcount hf.nodeCount
  · exact hcount hf.maxDepth
  · exact hcount hf.functionCount
  · exact hcount hf.classCount
  · exact hcount hf.importCount
  · exact absurd rfl hname

theorem comparable (hf : f.Counted) : f.Comparable :=
  ⟨fun m hm => (hf.whole m hm).metric,
    fun key => metric_ofNat ((hf.countOf key).le.trans (by norm_num))⟩

theorem measurable (hf : f.Counted) (htypes : f.histogram.keys.length ≤ 2 ^ 53) : f.Measurable :=
  ⟨fun m hm => (hf.whole m hm).finite, fun key => (hf.comparable.count key).1, htypes⟩

end Counted

/-- What is said of a metric that has the values `x` and `y`.  Only a complexity above `2 ^ 53` can
lose the smaller value in the rounded difference. -/
structure Judges (name : String) (x y : Float) (entry : Option Float) : Prop where
  isSome_iff : entry.isSome = true ↔ rat x ≠ 0 ∨ rat y ≠ 0
  eq_one_iff : ∀ z ∈ entry, z = 1.0 ↔ rat x = rat y
  eq_zero_iff : ∀ z ∈ entry, z = 0.0 ↔ rat (x - y).abs = max (rat x) (rat y)
  eq_zero_iff_of_small : name ≠ "complexity_score" ∨ rat x ≤ 2 ^ 53 ∧ rat y ≤ 2 ^ 53 →
    ∀ z ∈ entry, z = 0.0 ↔ (rat x = 0 ↔ rat y ≠ 0)

theorem judges_compare (hf : f.Counted) (hg : g.Counted) {name : String} {x y : Float}
    (hx : (name, x) ∈ f.scalarMetrics) (hy : (name, y) ∈ g.scalarMetrics) :
    Judges name x y ((f.compare g).breakdown.get? name) := by
  have hwx := hf.whole _ hx
  have hwy := hg.whole _ hy
  rw [get?_breakdown hx hy]
  refine ⟨?_, fun z hz => relative?_eq_one_iff hwx hwy hz,
    fun z hz => relative?_eq_zero_iff hwx.metric hwy.metric hz, fun hsmall z hz => ?_⟩
  · rw [Option.isSome_iff_ne_none, ne_eq, relative?_eq_none_iff hwx.metric hwy.metric,
      not_and_or]
  · have hle : rat x ≤ 2 ^ 53 ∧ rat y ≤ 2 ^ 53 :=
      hsmall.elim (fun hname => ⟨hf.rat_le hx hname, hg.rat_le hy hname⟩) id
    exact relative?_eq_zero_iff_of_le hwx hwy hle.1 hle.2 hz

theorem isSome_histogram_iff (hf : f.Counted) (hg : g.Counted) :
    ((f.compare g).breakdown.get? histogramName).isSome = true ↔
      ∃ key, f.countOf key ≠ 0 ∨ g.countOf key ≠ 0 := by
  rw [get?_breakdown_histogram, Option.isSome_iff_ne_none, ne_eq,
    histograms?_eq_none_iff (fun key => (hf.countOf key).le) fun key => (hg.countOf key).le]
  push Not
  exact exists_congr fun key => imp_iff_not_or

theorem score_eq_none_iff (hf : f.Counted) (hg : g.Counted) :
    (f.compare g).score = none ↔ f.Zero ∧ g.Zero := by
  have hempty : (f.compare g).score = none ↔ f.entries g = [] := by
    have hlength := (Table.keys_ofList_perm (nodup_names_entries f g)).length_eq
    rw [Table.keys, List.length_map, List.length_map] at hlength
    rw [score_compare, mean?_eq_none_iff, breakdown_compare, Table.values, List.map_eq_nil_iff,
      ← List.length_eq_zero_iff, hlength, List.length_eq_zero_iff]
  have hleft : (∀ m ∈ f.scalarMetrics, rat m.2 = 0) ↔
      ∀ p ∈ f.scalarMetrics.zip g.scalarMetrics, rat p.1.2 = 0 := by
    show (∀ m ∈ (f.scalarMetrics.zip g.scalarMetrics).map Prod.fst, rat m.2 = 0) ↔ _
    exact List.forall_mem_map
  have hright : (∀ m ∈ g.scalarMetrics, rat m.2 = 0) ↔
      ∀ p ∈ f.scalarMetrics.zip g.scalarMetrics, rat p.2.2 = 0 := by
    show (∀ m ∈ (f.scalarMetrics.zip g.scalarMetrics).map Prod.snd, rat m.2 = 0) ↔ _
    exact List.forall_mem_map
  have hscalar : (∀ p ∈ f.scalarMetrics.zip g.scalarMetrics, relative? p.1.2 p.2.2 = none) ↔
      (∀ m ∈ f.scalarMetrics, rat m.2 = 0) ∧ ∀ m ∈ g.scalarMetrics, rat m.2 = 0 := by
    rw [hleft, hright, ← forall₂_and]
    refine forall₂_congr fun p hp => ?_
    obtain ⟨hx, hy⟩ := List.of_mem_zip (a := p.1) (b := p.2) hp
    exact relative?_eq_none_iff (hf.comparable.scalar _ hx) (hg.comparable.scalar _ hy)
  rw [hempty, entries, List.append_eq_nil_iff, List.filterMap_eq_nil_iff, Option.toList_eq_nil_iff,
    Option.map_eq_none_iff,
    histograms?_eq_none_iff (fun key => (hf.countOf key).le) fun key => (hg.countOf key).le,
    forall_and]
  simp only [Option.map_eq_none_iff, hscalar]
  constructor
  · rintro ⟨⟨hf₁, hg₁⟩, hf₂, hg₂⟩
    exact ⟨⟨hf₁, hf₂⟩, hg₁, hg₂⟩
  · rintro ⟨⟨hf₁, hf₂⟩, hg₁, hg₂⟩
    exact ⟨⟨hf₁, hg₁⟩, hf₂, hg₂⟩

/-- The types that are counted 0 times leave no trace. -/
theorem compare_histogram_congr {s t : Table Nat} (hs : ∀ key, count s key = f.countOf key)
    (ht : ∀ key, count t key = g.countOf key) :
    { f with histogram := s }.compare { g with histogram := t } = f.compare g := by
  have h : histograms? s t = histograms? f.histogram g.histogram := histograms?_congr hs ht
  show StructuralComparison.mk _ _ = StructuralComparison.mk _ _
  simp only [h, scalarMetrics]

/-- The breakdown tells of each metric whether it occurs, whether both sides agree on it and whether
one side lacks it, and the score is there unless nothing is counted at all. -/
theorem compare_breakdown (hf : f.Counted) (hg : g.Counted) :
    (∀ name x y, (name, x) ∈ f.scalarMetrics → (name, y) ∈ g.scalarMetrics →
      Judges name x y ((f.compare g).breakdown.get? name)) ∧
    (((f.compare g).breakdown.get? histogramName).isSome = true ↔
      ∃ key, f.countOf key ≠ 0 ∨ g.countOf key ≠ 0) ∧
    (∀ z ∈ (f.compare g).breakdown.values, Proportion z) ∧
    (∀ z ∈ (f.compare g).score, Proportion z) ∧
    (∀ s t, (∀ key, count s key = f.countOf key) → (∀ key, count t key = g.countOf key) →
      { f with histogram := s }.compare { g with histogram := t } = f.compare g) ∧
    ((f.compare g).score = none ↔ f.Zero ∧ g.Zero) ∧
    (f.histogram.keys.length ≤ 2 ^ 53 → (∀ z ∈ (f.compare f).breakdown.values, z = 1.0) ∧
      ∀ z ∈ (f.compare f).score, z = 1.0) ∧
    f.compare g = g.compare f := by
  refine ⟨fun name x y hx hy => judges_compare hf hg hx hy, isSome_histogram_iff hf hg,
    proportion_of_mem_values_compare hf.comparable hg.comparable,
    proportion_score_compare hf.comparable hg.comparable,
    fun s t hs ht => compare_histogram_congr hs ht, score_eq_none_iff hf hg,
    fun htypes => ⟨eq_one_of_mem_values_compare_self (hf.measurable htypes), fun z hz => ?_⟩,
    compare_comm f g⟩
  have hscore := score_compare_self (hf.measurable htypes)
  rwa [Option.mem_def.mp hz, Option.getD_some] at hscore

theorem countOf_lt {bound : ℕ} (h₀ : 0 < bound) (h : ∀ n ∈ f.histogram.values, n < bound)
    (key : String) : f.countOf key < bound := by
  rw [countOf]
  cases hget : f.histogram.get? key with
  | none => exact h₀
  | some n =>
      exact h n (List.mem_map_of_mem (f := Prod.snd) ((Table.get?_eq_some_iff _ _ _).mp hget))

/-- Trees of which one has a loop that the other lacks; both list types that do not occur. -/
theorem compare_breakdown_loop :
    let f : Fingerprint :=
      ⟨2, 1, 0, 0, 0, Float.ofNat 1, .ofList [("Module", 1), ("Pass", 0), ("While", 1)]⟩
    let g : Fingerprint := ⟨2, 1, 0, 0, 0, Float.ofNat 0, .ofList [("Module", 1), ("If", 0)]⟩
    f.Counted ∧ g.Counted ∧ f.histogram.keys.length ≤ 2 ^ 53 ∧
      (f.compare g).breakdown.get? "complexity_score" = some 0.0 ∧ (f.compare g).score ≠ none ∧
      (∀ z ∈ (f.compare f).breakdown.values, z = 1.0) ∧ f.compare g = g.compare f := by
  intro f g
  have hf : f.Counted := ⟨by decide, by decide, by decide, by decide, by decide,
    whole_ofNat (by decide), countOf_lt (by decide) (by decide)⟩
  have hg : g.Counted := ⟨by decide, by decide, by decide, by decide, by decide,
    whole_ofNat (by decide), countOf_lt (by decide) (by decide)⟩
  have htypes : f.histogram.keys.length ≤ 2 ^ 53 := by decide
  obtain ⟨hscalar, -, -, -, -, hscore, hself, hcomm⟩ := compare_breakdown hf hg
  have hone : rat (Float.ofNat 1) = 1 := by
    rw [rat_ofNat (by norm_num), Nat.cast_one]
  have hzero : rat (Float.ofNat 0) = 0 := by
    rw [rat_ofNat (by norm_num), Nat.cast_zero]
  have hjudges := hscalar "complexity_score" (Float.ofNat 1) (Float.ofNat 0)
    (by simp [f, scalarMetrics]) (by simp [g, scalarMetrics])
  obtain ⟨z, hz⟩ := Option.isSome_iff_exists.mp
    (hjudges.isSome_iff.mpr (.inl (by rw [hone]; norm_num)))
  have hentry := hjudges.eq_zero_iff_of_small
    (.inr ⟨by rw [hone]; norm_num, by rw [hzero]; norm_num⟩) z hz
  rw [hone, hzero] at hentry
  have hlacking : z = 0.0 := hentry.mpr (by norm_num)
  refine ⟨hf, hg, htypes, hlacking ▸ hz, fun hnone => ?_, (hself htypes).1, hcomm⟩
  have hnodes := (hscore.mp hnone).1.scalar ("complexity_score", Float.ofNat 1)
    (by simp [f, scalarMetrics])
  rw [hone] at hnodes
  exact one_ne_zero hnodes

def weighted (complexity : Float) : Fingerprint := ⟨0, 0, 0, 0, 0, complexity, .empty⟩

theorem counted_weighted {x : Float} (h : Whole x) : (weighted x).Counted :=
  ⟨Nat.two_pow_pos 53, Nat.two_pow_pos 53, Nat.two_pow_pos 53, Nat.two_pow_pos 53,
    Nat.two_pow_pos 53, h, fun _ => Nat.two_pow_pos 53⟩

theorem rat_large : rat 1152921504606846976.0 = (2 ^ 60 : ℕ) := by
  have h : (1152921504606846976.0 : Float).toModel.unpack =
    .finite .positive (2 ^ 52) 8 (by norm_num) := rfl
  rw [rat, h, number_positive]
  norm_num

def spreadEntries (types : ℕ) : List (String × ℕ) :=
  (List.range types).map fun n => (String.ofList (.replicate n 'a'), 1)

def spread (types : ℕ) : Fingerprint := ⟨0, 0, 0, 0, 0, 0.0, .ofList (spreadEntries types)⟩

theorem nodup_spreadEntries (types : ℕ) : ((spreadEntries types).map Prod.fst).Nodup := by
  rw [spreadEntries, List.map_map]
  refine List.Nodup.map (fun m n h => ?_) List.nodup_range
  have hlist := String.ofList_injective h
  simpa using congrArg List.length hlist

theorem count_spread {types : ℕ} {key : String} (h : key ∈ (spread types).histogram.keys) :
    count (spread types).histogram key = 1 := by
  obtain ⟨n, hn⟩ := Table.mem_keys_iff.mp h
  have hmem := Table.mem_of_mem_entries_ofList ((Table.get?_eq_some_iff _ _ _).mp hn)
  obtain ⟨k, -, hk⟩ := List.mem_map.mp hmem
  rw [count, hn]
  exact (congrArg Prod.snd hk).symm

theorem counted_spread (types : ℕ) : (spread types).Counted := by
  refine ⟨Nat.two_pow_pos 53, Nat.two_pow_pos 53, Nat.two_pow_pos 53, Nat.two_pow_pos 53,
    Nat.two_pow_pos 53, ⟨?_, 0, rat_zero.trans Nat.cast_zero.symm⟩, fun key => ?_⟩
  · show (0.0 : Float).isFinite = true
    rfl
  · by_cases hkey : key ∈ (spread types).histogram.keys
    · exact (count_spread hkey).trans_lt (by decide)
    · have hzero := not_not.mp (mt mem_keys_of_count_ne_zero hkey)
      exact hzero.trans_lt (by decide)

/-- The similarity of so many types with themselves is not 1. -/
theorem exists_histograms?_spread {types : ℕ} (htypes : types = 2 ^ 53 + 2) :
    ∃ z ≠ 1.0, histograms? (spread types).histogram (spread types).histogram = some z := by
  have hkeys : (spread types).histogram.keys.length = types := by
    show (Table.ofList (spreadEntries types)).keys.length = types
    rw [(Table.keys_ofList_perm (nodup_spreadEntries types)).length_eq, spreadEntries,
      List.length_map, List.length_map, List.length_range]
  generalize hs : (spread types).histogram = s at hkeys ⊢
  have hcount {key : String} (h : key ∈ s.keys) : count s key = 1 := by
    rw [← hs] at h ⊢
    exact count_spread h
  have hoccurs {key : String} (h : key ∈ s.keys) : occurs s s key = true := by
    rw [occurs, hcount h]
    rfl
  have hfilter : (Similarity.types s s).keys.filter (occurs s s) = s.keys := by
    rw [Table.filter_keys_congr (fun _ => mem_types_of_occurs)
      (fun key h => mem_keys_of_count_ne_zero (by simpa [occurs] using h))]
    exact List.filter_eq_self.mpr fun key => hoccurs
  have hones : (s.keys.filterMap fun key =>
      relative? (Float.ofNat (count s key)) (Float.ofNat (count s key))) =
      s.keys.map fun _ => 1.0 := by
    rw [← List.filterMap_eq_map]
    refine List.filterMap_congr fun key hkey => ?_
    rw [hcount hkey]
    show relative? (Float.ofNat 1) (Float.ofNat 1) = some 1.0
    decide
  rw [histograms?_eq, hfilter, hones]
  have hlength : (s.keys.map fun _ => 1.0).length = 2 ^ 53 + 2 := by
    rw [List.length_map, hkeys, htypes]
  have hne := mean?_ne_one (fun x hx => by
    obtain ⟨-, -, rfl⟩ := List.mem_map.mp hx
    exact proportion_one) hlength
  cases hmean : mean? (s.keys.map fun _ => 1.0) with
  | none =>
      rw [mean?_eq_none_iff.mp hmean] at hlength
      exact absurd hlength (by decide)
  | some z => exact ⟨z, fun hz => hne (hz ▸ hmean), rfl⟩

/-- A complexity above `2 ^ 53` may lose the other side, and the mean over more than `2 ^ 53` types
may be less than 1 although each of them agrees. -/
theorem not_judged_without_bounds :
    (¬ ∀ f g : Fingerprint, f.Counted → g.Counted → ∀ name x y, (name, x) ∈ f.scalarMetrics →
      (name, y) ∈ g.scalarMetrics → ∀ z ∈ (f.compare g).breakdown.get? name,
        z = 0.0 ↔ (rat x = 0 ↔ rat y ≠ 0)) ∧
    ¬ ∀ f : Fingerprint, f.Counted → ∀ z ∈ (f.compare f).breakdown.values, z = 1.0 := by
  constructor
  · intro h
    have hlarge : Whole 1152921504606846976.0 := ⟨rfl, 2 ^ 60, rat_large⟩
    have hone : Whole 1.0 := ⟨rfl, 1, rat_one.trans Nat.cast_one.symm⟩
    have hx : ("complexity_score", 1152921504606846976.0) ∈
        (weighted 1152921504606846976.0).scalarMetrics := by simp [scalarMetrics, weighted]
    have hy : ("complexity_score", 1.0) ∈ (weighted 1.0).scalarMetrics := by
      simp [scalarMetrics, weighted]
    have hentry := h _ _ (counted_weighted hlarge) (counted_weighted hone) _ _ _ hx hy 0.0 (by
      rw [get?_breakdown hx hy]
      decide)
    rw [rat_large, rat_one] at hentry
    exact absurd (hentry.mp rfl) (by norm_num)
  · intro h
    have hfalse {types : ℕ} (htypes : types = 2 ^ 53 + 2) : False := by
      obtain ⟨z, hne, hz⟩ := exists_histograms?_spread htypes
      rw [← get?_breakdown_histogram, Table.get?_eq_some_iff] at hz
      exact hne (h _ (counted_spread types) z (List.mem_map_of_mem (f := Prod.snd) hz))
    exact hfalse rfl

end Fingerprint

end RenderGate
