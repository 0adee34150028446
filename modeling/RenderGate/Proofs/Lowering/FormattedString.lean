import RenderGate.Proofs.Lowering.Agreement

/-!
# Agreement of strings

Whether a part of a string is formatted depends on its prefix alone, and an interpolation is lowered
together with the formats inside its format.  Both keep agreement.
-/

namespace RenderGate

open Concrete (Source Tree)

namespace Scope

section steps

variable {m : Type → Type} [Monad m] [MonadExcept ParseError m]

def interpolated (S : Scope m) (t : Tree) : m Tree :=
  match t.field? "expression" with
  | some value => pure value
  | none => S.firstNamed t

def formatPiece (S : Scope m) (piece : Tree) : m (Option Node) :=
  if interpolates piece then some <$> S.interpolation piece else pure none

def formatted (S : Scope m) (t : Tree) (value : Node) : m Node :=
  match t.field? "format_specifier" with
  | none => return .of .formattedValue [value]
  | some spec => do
      let pieces ← (formatPieces spec).mapM S.formatPiece
      return .of .formattedValue [value, .of .joinedStr (joinPieces pieces)]

/-- The pieces of a format are lowered one after the other. -/
theorem interpolation_eq [LawfulMonad m] (S : Scope m) (t : Tree) :
    S.interpolation t = S.interpolated t >>= S.expression .load >>= S.formatted t := by
  have hformat : ∀ spec : Tree, ((formatPieces spec).attach.mapM
      fun (p : { x // x ∈ formatPieces spec }) =>
        if interpolates p.1 then some <$> S.interpolation p.1 else pure none) =
      (formatPieces spec).mapM S.formatPiece := by
    intro spec
    rw [List.mapM_subtype (g := S.formatPiece) fun _ _ => rfl, List.unattach_attach]
  rw [interpolation, interpolated]
  cases t.field? "expression" with
  | some inner =>
      simp only [pure_bind]
      refine congrArg _ (funext fun value => ?_)
      unfold formatted
      split
      · rename_i hspec
        rw [hspec]
      · rename_i spec hspec
        rw [hspec, hformat]
  | none =>
      simp only [bind_assoc]
      refine congrArg _ (funext fun inner => congrArg _ (funext fun value => ?_))
      unfold formatted
      split
      · rename_i hspec
        rw [hspec]
      · rename_i spec hspec
        rw [hspec, hformat]

end steps

namespace Agrees

variable {m m' : Type → Type} [Monad m] [Monad m'] [LawfulMonad m] [LawfulMonad m']
  [MonadExcept ParseError m] [MonadExcept ParseError m'] {s s' : Source} {L : Likeness s s' m m'}
  {S : Scope m} {S' : Scope m'} (h : S.Agrees L S') {t t' : Tree}
include h

theorem interpolated (ht : L.Like t t') :
    Agree L.toAccord L.Like (S.interpolated t) (S'.interpolated t') := by
  unfold Scope.interpolated
  rcases L.field?_cases ht "expression" with ⟨h₁, h₂⟩ | ⟨c, c', h₁, h₂, hc⟩
  · rw [h₁, h₂]
    exact h.firstNamed ht
  · rw [h₁, h₂]
    exact .pure hc

theorem interpolation (ht : L.Like t t') :
    Agree L.toAccord Eq (S.interpolation t) (S'.interpolation t') := by
  -- a format lies inside its interpolation, so the induction is on the size of the first tree
  induction hn : t.size using Nat.strongRecOn generalizing t t' with
  | ind n ih =>
      rw [interpolation_eq, interpolation_eq]
      refine ((h.interpolated ht).bind fun _ _ hc => h.expression .load hc).bind_eq fun value => ?_
      unfold Scope.formatted
      rcases L.field?_cases ht "format_specifier" with ⟨h₁, h₂⟩ | ⟨spec, spec', h₁, h₂, hspec⟩
      · rw [h₁, h₂]
        exact .pure rfl
      · rw [h₁, h₂]
        have hpieces := L.filter_kind (L.tokens hspec) fun kind => kind != ":"
        refine (Agree.mapM_mem hpieces fun piece piece' hmem hpiece => ?_).bind_eq
          fun pieces => .pure rfl
        unfold formatPiece interpolates
        rw [L.kind hpiece]
        split
        · have hlt := Tree.size_lt_of_mem_tokens (List.mem_filter.mp hmem).1
          have hsize := Nat.lt_trans hlt (Tree.size_lt_of_field? h₁)
          exact (ih _ (hn ▸ hsize) hpiece rfl).map_eq some
        · exact .pure rfl

/-- A part is formatted or not on account of its prefix. -/
theorem isFormatted (ht : L.Like t t')
    (hs : t.opening?.map s.prefix? = t'.opening?.map s'.prefix?) :
    Agree L.toAccord Eq (S.isFormatted t) (S'.isFormatted t') := by
  unfold Scope.isFormatted
  rcases rel_cases (L.opening? ht) with ⟨h₁, h₂⟩ | ⟨c, c', h₁, h₂, hc⟩
  · rw [Tree.opening?] at h₁ h₂
    rw [h₁, h₂]
    exact .pure rfl
  · rw [h₁, h₂, Option.map_some, Option.map_some, Option.some.injEq] at hs
    rw [Tree.opening?] at h₁ h₂
    rw [h₁, h₂]
    refine (h.text_map hc hs).bind fun text text' htext => .pure ?_
    exact congrArg (fun cs : List Char => cs.any fun c => c == 'f' || c == 'F') htext

theorem partContent (ht : L.Like t t')
    (hs : t.opening?.map s.prefix? = t'.opening?.map s'.prefix?) :
    Agree L.toAccord Eq (S.partContent t) (S'.partContent t') := by
  refine (h.isFormatted ht hs).bind_eq fun formatted => ?_
  have hpieces := L.filter_kind (L.tokens ht) fun kind =>
    kind != "string_start" && kind != "string_end"
  refine .mapM hpieces fun piece piece' hpiece => ?_
  rw [L.kind hpiece]
  split
  · exact (h.interpolation hpiece).map_eq some
  · exact .pure rfl

theorem string (ht : L.Like t t') (hk : t.kind = "string" ∨ t.kind = "concatenated_string") :
    Agree L.toAccord Eq (S.string t) (S'.string t') := by
  have hparts := L.stringParts ht hk
  refine (Agree.mapM hparts fun _ _ hc => h.isFormatted hc.1 hc.2).bind_eq fun formatted => ?_
  split
  · refine (Agree.mapM hparts fun _ _ hc => h.partContent hc.1 hc.2).bind_eq fun contents => ?_
    exact .pure rfl
  · exact .pure rfl

end Agrees

end Scope

end RenderGate
