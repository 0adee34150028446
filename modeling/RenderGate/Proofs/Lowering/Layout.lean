import RenderGate.Proofs.Lowering.Counter

/-!
# Comments and layout

Lowering sees no more of a concrete tree than its outline.  Two texts whose concrete trees have one
outline are lowered to one abstract tree, or both are refused for one reason, whatever comments and
spaces they contain; only the position of the refusal may differ.
-/

namespace RenderGate

open Concrete (Position Source Tree Alike)

/-- An error without the place where it occurs. -/
def ParseError.unplaced : ParseError → ParseError
  | .fault f _ => .fault f ⟨0, 0⟩
  | e => e

/-- Trees with one outline, whose errors may stand at different places. -/
def Concrete.Alike.likeness (s s' : Source) : Likeness s s' Lowered Lowered where
  toAccord := Tolerance.accord ⟨fun d e => d.unplaced = e.unplaced, fun _ => False⟩
  Like := Alike s s'
  kind := Alike.kind
  isNamed := Alike.named_eq
  role := Alike.field_eq
  tokens := Alike.tokens
  fields := Alike.fields
  namedBeside := Alike.namedBeside
  spelled := Alike.spelled
  prefixed := Alike.prefixed
  fault _ _ _ := .error rfl

theorem agree_lowerModule {s s' : Source} {root root' : Tree} (h : Alike s s' root root') :
    Agree (Alike.likeness s s').toAccord Eq (lowerModule s root) (lowerModule s' root') := by
  have hlevels := Scope.agrees_withLevels (L := Alike.likeness s s') (fun _ => .error rfl)
  rw [lowerModule_eq, lowerModule_eq]
  exact ((hlevels nestingLimit).statements h).bind_eq fun _ => .pure rfl

/-- Comments and layout vanish: what a text is lowered to, or why it is refused, is decided by the
outline of its concrete tree. -/
theorem parseTree_of_outline_eq {text text' : String} {root root' : Tree}
    (hroot : root.info.faulty = false) (hroot' : root'.info.faulty = false)
    (hplain : root.PlainExtras) (hplain' : root'.PlainExtras)
    (houtline : root.outline (Source.ofText text) = root'.outline (Source.ofText text')) :
    (∃ node, parseTree text root = .ok node ∧ parseTree text' root' = .ok node) ∨
      ∃ d e, parseTree text root = .error d ∧ parseTree text' root' = .error e ∧
        d.unplaced = e.unplaced := by
  have hlike : Alike (Source.ofText text) (Source.ofText text') root root' :=
    ⟨houtline, hplain, hplain'⟩
  have hagree := agree_lowerModule hlike
  have hparse : parseTree text root = lowerModule (Source.ofText text) root := by
    rw [parseTree, hroot, if_neg Bool.false_ne_true]
  have hparse' : parseTree text' root' = lowerModule (Source.ofText text') root' := by
    rw [parseTree, hroot', if_neg Bool.false_ne_true]
  rw [hparse, hparse']
  revert hagree
  generalize lowerModule (Source.ofText text) root = result
  generalize lowerModule (Source.ofText text') root' = result'
  intro hagree
  cases hagree with
  | @ok node node' h =>
      obtain rfl : node = node' := h
      exact .inl ⟨node, rfl, rfl⟩
  | error h => exact .inr ⟨_, _, rfl, rfl, h⟩
  | excused h => exact h.elim

/-- A named node without a role and without faults. -/
def Concrete.Info.bare (kind : String) (extra : Bool) (start stop : Nat) : Concrete.Info :=
  ⟨kind, true, extra, false, false, false, none, start, stop⟩

def Concrete.letter (role : Option String) (start : Nat) : Tree :=
  .node { Info.bare "identifier" false start (start + 1) with field := role } []

/-- The concrete tree of a name that covers a span, with a comment after it or not. -/
def Concrete.nameTree (start stop : Nat) (comment : Option (Nat × Nat)) : Tree :=
  .node (.bare "module" false start stop)
    (.node (.bare "expression_statement" false start stop)
        [.node (.bare "identifier" false start stop) []] ::
      comment.toList.map fun span => .node (.bare "comment" true span.1 span.2) [])

theorem parseTree_of_outline_eq_comment :
    (∃ node, parseTree "x  # c" (Concrete.nameTree 0 1 (some (3, 6))) = .ok node ∧
        parseTree "\n x" (Concrete.nameTree 2 3 none) = .ok node) ∨
      ∃ d e, parseTree "x  # c" (Concrete.nameTree 0 1 (some (3, 6))) = .error d ∧
        parseTree "\n x" (Concrete.nameTree 2 3 none) = .error e ∧ d.unplaced = e.unplaced :=
  parseTree_of_outline_eq (by decide) (by decide) (by decide) (by decide) (by decide +kernel)

end RenderGate
