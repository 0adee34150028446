import RenderGate.Proofs.Double.Symmetry
import RenderGate.Proofs.Similarity.EditDistance
import RenderGate.Proofs.Table
import RenderGate.Similarity.Signals

/-!
# Comparison in either order

The edit distance, the similarity of two metrics, and with them the comparison of two shapes do not
depend on which of the two comes first.  They agree bit for bit, for all doubles: the size of a
difference is the same either way, and the larger of two doubles matters only where it is positive.
The alignment of token sequences has no such property.
-/

namespace RenderGate

open Double

namespace Similarity

theorem distance_comm {α : Type} [DecidableEq α] (as bs : List α) :
    distance as bs = distance bs as := by
  rw [distance_eq_leastEdits, distance_eq_leastEdits, leastEdits_comm]

theorem editSimilarity_comm (s t : String) : editSimilarity s t = editSimilarity t s := by
  simp only [editSimilarity, distance_comm s.toList, Nat.max_comm s.toList.length,
    Bool.and_comm s.toList.isEmpty, Bool.or_comm s.toList.isEmpty]

/-- Only the sign of a zero can depend on the order. -/
theorem larger_comm (x y : Float) : larger x y = larger y x ∨
    ¬ 0.0 < larger x y ∧ ¬ 0.0 < larger y x := by
  unfold larger
  by_cases hx : x.isNaN = true
  · left
    by_cases hy : y.isNaN = true
    · rw [if_pos hx, if_pos hy, eq_of_isNaN hx hy]
    · rw [if_pos hx, if_neg hy, if_pos hx]
  by_cases hy : y.isNaN = true
  · left
    rw [if_neg hx, if_pos hy, if_pos hy]
  rw [if_neg hx, if_neg hy, if_neg hy, if_neg hx]
  by_cases hxy : x < y
  · left
    rw [if_pos hxy, if_neg (not_lt_of_lt hxy)]
  by_cases hyx : y < x
  · left
    rw [if_neg hxy, if_pos hyx]
  rw [if_neg hxy, if_neg hyx]
  refine (eq_or_rat_eq_zero hx hy hxy hyx).imp id fun ⟨fx, fy, rx, ry⟩ => ⟨fun h => ?_, fun h => ?_⟩
  · exact absurd ((lt_iff rfl fx).mp h) (by rw [rx, rat_zero]; exact lt_irrefl 0)
  · exact absurd ((lt_iff rfl fy).mp h) (by rw [ry, rat_zero]; exact lt_irrefl 0)

theorem relative?_comm (x y : Float) : relative? x y = relative? y x := by
  unfold relative?
  rcases larger_comm x y with h | ⟨hxy, hyx⟩
  · simp only [h, abs_sub_comm x y]
  · simp only [if_neg hxy, if_neg hyx]

theorem histograms?_comm (s t : Table Nat) : histograms? s t = histograms? t s := by
  have htypes : Table.ofList ((s.keys ++ t.keys).map fun key => (key, ())) =
      Table.ofList ((t.keys ++ s.keys).map fun key => (key, ())) :=
    Table.ofList_units_congr fun key => by rw [List.mem_append, List.mem_append, or_comm]
  simp only [histograms?, htypes, relative?_comm (Float.ofNat ((s.get? _).getD 0))]

end Similarity

namespace Fingerprint

theorem filterMap_relative?_comm {ms ns : List (String × Float)}
    (h : ms.map Prod.fst = ns.map Prod.fst) :
    ((ms.zip ns).filterMap fun m =>
        (Similarity.relative? m.1.2 m.2.2).map fun similarity => (m.1.1, similarity)) =
      (ns.zip ms).filterMap fun m =>
        (Similarity.relative? m.1.2 m.2.2).map fun similarity => (m.1.1, similarity) := by
  induction ms generalizing ns with
  | nil => rw [List.zip_nil_left, List.zip_nil_right]
  | cons m ms ih =>
      cases ns with
      | nil => exact absurd h (List.cons_ne_nil _ _)
      | cons n ns =>
          obtain ⟨hname, hrest⟩ := List.cons.inj h
          simp only [List.zip_cons_cons, List.filterMap_cons, ih hrest, hname,
            Similarity.relative?_comm m.2 n.2]

/-- Two shapes compare the same in either order, metric by metric. -/
theorem compare_comm (f g : Fingerprint) : f.compare g = g.compare f := by
  have hnames : f.scalarMetrics.map Prod.fst = g.scalarMetrics.map Prod.fst := rfl
  simp only [compare, filterMap_relative?_comm hnames, Similarity.histograms?_comm f.histogram]

end Fingerprint

end RenderGate
