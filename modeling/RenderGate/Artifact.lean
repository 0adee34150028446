import RenderGate.Digest
import RenderGate.Text.Blank

/-!
# Artifacts

An artifact is a text that one of two producers rendered for a task.  Reports refer to it by the
digest of the text, so they never hold the text itself.
-/

namespace RenderGate

/-- Which of the two producers a text comes from. -/
inductive Label where
  | a
  | b
deriving DecidableEq, Repr

structure Artifact where
  label : Label
  /-- Where the text lay, if that is known; it is never read. -/
  path : Option String
  content : String
deriving DecidableEq, Repr

structure ArtifactRef where
  label : Label
  path : Option String
  digest : String
deriving DecidableEq, Repr

def Label.name : Label → String
  | .a => "A"
  | .b => "B"

namespace Artifact

def isBlank (x : Artifact) : Bool := x.content.toList.all Text.isBlank

def digest (x : Artifact) : String := Digest.ofText x.content

def reference (x : Artifact) : ArtifactRef := ⟨x.label, x.path, x.digest⟩

end Artifact

namespace ArtifactRef

def shownBytes : Nat := 16

/-- The characters that make up the first `n` bytes of a text, unless these end inside a character
or beyond the text. -/
def firstBytes? : List Char → Nat → Option (List Char)
  | _, 0 => some []
  | [], _ + 1 => none
  | c :: cs, n + 1 =>
      if c.utf8Size ≤ n + 1 then (firstBytes? cs (n + 1 - c.utf8Size)).map (c :: ·) else none

/-- The first bytes of the digest, or all of it where they cannot be cut off. -/
def shortDigest (r : ArtifactRef) : String :=
  match firstBytes? r.digest.toList shownBytes with
  | some cs => String.ofList cs
  | none => r.digest

/-- The reference in messages: producer, path and the first bytes of the digest. -/
def text (r : ArtifactRef) : String :=
  match r.path with
  | some path => r.label.name ++ ":" ++ path ++ "@" ++ r.shortDigest
  | none => r.label.name ++ "@" ++ r.shortDigest

end ArtifactRef

end RenderGate
