import RenderGate.Proofs.Json.Equality
import RenderGate.Report

/-!
# Reports with the same outcome

Two reports have the same outcome if they agree in all but the time.  The doubles of a report are
compared as numbers, so a zero agrees with negative zero; only similarity and distance are compared
bit for bit.  To have the same outcome is an equivalence of reports without NaN.  Reports that are
equal have the same outcome, duration and timestamp, and the other way round, unless similarity or
distance are zeros with opposite signs: such reports are equal, and their outcomes are not the same.
-/

namespace RenderGate

open Double Json

namespace Outcome

def floats (o : Outcome) : List Float :=
  o.similarity :: o.distance :: o.signals.token :: o.signals.edit :: o.signals.structural ::
    memberFloats o.diagnostics.entries

def NoNaN (o : Outcome) : Prop := ∀ x ∈ o.floats, x.isNaN = false

instance (o : Outcome) : Decidable o.NoNaN :=
  inferInstanceAs (Decidable (∀ x ∈ o.floats, x.isNaN = false))

/-- An outcome but for its similarity and distance, where every zero has lost its sign. -/
def remainder (o : Outcome) :
    ArtifactRef × ArtifactRef × Float × Float × Float × Verdict × List (String × Json) :=
  (o.first, o.second, unsigned o.signals.token, unsigned o.signals.edit,
    unsigned o.signals.structural, o.verdict, unsignedMembers o.diagnostics.entries)

variable {o p : Outcome}

theorem agrees_iff (ho : o.NoNaN) {close : Float → Float → Bool} :
    o.agrees close p = true ↔ o.remainder = p.remainder ∧
      close o.similarity p.similarity = true ∧ close o.distance p.distance = true := by
  have hfloats := ho
  simp only [NoNaN, floats, List.forall_mem_cons] at hfloats
  obtain ⟨-, -, htoken, hedit, hstructural, hdiagnostics⟩ := hfloats
  simp only [agrees, Signals.same, remainder, Bool.and_eq_true, beq_iff_eq, Prod.mk.injEq,
    beq_iff htoken, beq_iff hedit, beq_iff hstructural, sameMembers_iff hdiagnostics,
    unsigned_eq_iff]
  tauto

/-- Outcomes are the same if similarity and distance are the same doubles and the rest agrees. -/
theorem same_iff (ho : o.NoNaN) : o.same p = true ↔
    o.remainder = p.remainder ∧ o.similarity = p.similarity ∧ o.distance = p.distance := by
  simp only [same, agrees_iff ho, toBits_beq_iff]

end Outcome

namespace Report

/-- Two reports came to the same outcome, whatever time they took. -/
def SameOutcome (r s : Report) : Prop := r.outcome.same s.outcome = true

instance (r s : Report) : Decidable (r.SameOutcome s) :=
  inferInstanceAs (Decidable (r.outcome.same s.outcome = true))

variable {r s : Report}

/-- Reports are equal if similarity and distance are the same numbers and the rest agrees. -/
theorem same_iff (hr : r.outcome.NoNaN) : r.same s = true ↔
    (r.outcome.remainder = s.outcome.remainder ∧
      (r.outcome.similarity = s.outcome.similarity ∨
        OppositeZeros r.outcome.similarity s.outcome.similarity) ∧
      (r.outcome.distance = s.outcome.distance ∨
        OppositeZeros r.outcome.distance s.outcome.distance)) ∧
      r.duration = s.duration ∧ r.timestamp = s.timestamp := by
  have hfloats := hr
  simp only [Outcome.NoNaN, Outcome.floats, List.forall_mem_cons] at hfloats
  obtain ⟨hsimilarity, hdistance, -⟩ := hfloats
  rw [same, Bool.and_eq_true, Bool.and_eq_true, Outcome.agrees_iff hr, beq_iff hsimilarity,
    beq_iff hdistance, beq_iff_eq, beq_iff_eq, and_assoc]

/-- To have the same outcome is an equivalence of reports without NaN that does not depend on the
time.  With the same duration and timestamp it makes two reports equal; and equal reports have all
three in common, but for zeros with opposite signs as their similarities or distances. -/
theorem same_iff_sameOutcome {q : Report} (hq : q.outcome.NoNaN) (hr : r.outcome.NoNaN)
    (hs : s.outcome.NoNaN) :
    r.SameOutcome r ∧ (r.SameOutcome s → s.SameOutcome r) ∧
    (q.SameOutcome r → r.SameOutcome s → q.SameOutcome s) ∧
    (∀ d t e u, ({ r with duration := d, timestamp := t } : Report).SameOutcome
      { s with duration := e, timestamp := u } ↔ r.SameOutcome s) ∧
    (r.same s = true ∧ ¬ OppositeZeros r.outcome.similarity s.outcome.similarity ∧
        ¬ OppositeZeros r.outcome.distance s.outcome.distance ↔
      r.SameOutcome s ∧ r.duration = s.duration ∧ r.timestamp = s.timestamp) := by
  unfold SameOutcome
  rw [Outcome.same_iff hq, Outcome.same_iff hq, Outcome.same_iff hr, Outcome.same_iff hr,
    Outcome.same_iff hs, same_iff hr]
  refine ⟨⟨rfl, rfl, rfl⟩, fun ⟨h, h', h''⟩ => ⟨h.symm, h'.symm, h''.symm⟩,
    fun ⟨h, h', h''⟩ ⟨k, k', k''⟩ => ⟨h.trans k, h'.trans k', h''.trans k''⟩,
    fun d t e u => Outcome.same_iff hr, ?_⟩
  constructor
  · rintro ⟨⟨⟨hrest, hsimilarity, hdistance⟩, htime⟩, hs, hd⟩
    exact ⟨⟨hrest, hsimilarity.resolve_right hs, hdistance.resolve_right hd⟩, htime⟩
  · rintro ⟨⟨hrest, hsimilarity, hdistance⟩, htime⟩
    refine ⟨⟨⟨hrest, .inl hsimilarity, .inl hdistance⟩, htime⟩, ?_, ?_⟩
    · rw [hsimilarity]
      exact not_oppositeZeros_self
    · rw [hdistance]
      exact not_oppositeZeros_self

/-- The report of a failure with the given similarity, where a double is among the signals and the
diagnostics. -/
def failure (similarity x : Float) : Report where
  outcome := .of ⟨.a, none, "aa"⟩ ⟨.b, some "b.py", "bb"⟩ similarity (.uniform x) ⟨.fail, .audit⟩
    (.ofList [("f", .array [.null, .number (.float x)]), ("n", .number (.int 1))])
  duration := ⟨3, 5⟩
  timestamp := ⟨⟨2024, 1, 2⟩, 184, 5, 0⟩

theorem same_iff_sameOutcome_failure :
    let r := failure 0.75 0.0
    let s := failure 0.75 (-0.0)
    let q := { r with duration := ⟨9, 0⟩ }
    (q.outcome.NoNaN ∧ r.outcome.NoNaN ∧ s.outcome.NoNaN) ∧
      s.SameOutcome r ∧ q.SameOutcome s ∧ r.same s = true ∧ ¬ q.same s = true := by
  intro r s q
  have hr : r.outcome.NoNaN := by decide +kernel
  have hs : s.outcome.NoNaN := by decide +kernel
  have hsame : r.SameOutcome s := by decide +kernel
  have hdistance : ¬ OppositeZeros r.outcome.distance s.outcome.distance := by decide +kernel
  have hsimilarity : ¬ OppositeZeros r.outcome.similarity s.outcome.similarity := by
    decide +kernel
  obtain ⟨hrefl, hsymm, htrans, -, hiff⟩ := same_iff_sameOutcome (q := q) hr hr hs
  obtain ⟨-, -, -, -, hlate⟩ := same_iff_sameOutcome (r := q) hr hr hs
  refine ⟨⟨hr, hr, hs⟩, hsymm hsame, htrans hrefl hsame, (hiff.mpr ⟨hsame, rfl, rfl⟩).1, ?_⟩
  exact fun h => absurd (hlate.mp ⟨h, hsimilarity, hdistance⟩).2.1 (by decide)

/-- Reports without NaN that are equal, also in their duration and timestamp, but do not have the
same outcome: the similarity is zero in the one and negative zero in the other. -/
theorem not_sameOutcome_of_same :
    let r := failure 0.0 0.25
    let s := failure (-0.0) 0.25
    r.outcome.NoNaN ∧ s.outcome.NoNaN ∧ r.same s = true ∧ r.duration = s.duration ∧
      r.timestamp = s.timestamp ∧ ¬ r.SameOutcome s := by
  decide +kernel

end Report

end RenderGate
