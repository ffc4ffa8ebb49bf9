/-!
# Paths

A path is absolute or relative and consists of its components. Empty components and single dots say nothing and are
left out; double dots stay, since only a file tree can tell what they mean. Exactly two slashes at the start are a root
of their own.
-/

namespace Conformance

/-- Where a path starts. -/
inductive Path.Anchor where
  /-- Wherever the path is used. -/
  | relative
  /-- The root of the tree. -/
  | root
  /-- The root written with two slashes. -/
  | doubleRoot
deriving DecidableEq, Repr

structure Path where
  anchor : Path.Anchor := .relative
  parts : List String := []
deriving DecidableEq, Repr

namespace Path

/-- The pieces of a text between separators. -/
def splitAt (sep : Char) : List Char → List (List Char)
  | [] => [[]]
  | c :: cs =>
    if c = sep then [] :: splitAt sep cs
    else match splitAt sep cs with
      | [] => [[c]]
      | piece :: pieces => (c :: piece) :: pieces

/-- The components that a text names. -/
def components (cs : List Char) : List String :=
  ((splitAt '/' cs).filter fun piece => !piece.isEmpty && piece != ['.']).map String.ofList

/-- The anchor that a text starts with. -/
def anchorOf : List Char → Anchor
  | '/' :: '/' :: '/' :: _ => .root
  | '/' :: '/' :: _ => .doubleRoot
  | '/' :: _ => .root
  | _ => .relative

/-- The path that a text writes. -/
def ofString (s : String) : Path := ⟨anchorOf s.toList, components s.toList⟩

/-- The root and what separates nothing from the components. -/
def Anchor.text : Anchor → String
  | relative => ""
  | root => "/"
  | doubleRoot => "//"

/-- The text of a path; the relative path without components is a dot. -/
def toString (p : Path) : String :=
  if p.anchor = .relative ∧ p.parts = [] then "." else p.anchor.text ++ String.intercalate "/" p.parts

/-- `p` and then `q`; an absolute path stays what it is. -/
def join (p q : Path) : Path :=
  match q.anchor with
  | .relative => ⟨p.anchor, p.parts ++ q.parts⟩
  | _ => q

/-- The way from `base` down to `p`, if `p` lies below `base`. -/
def relativeTo? (p base : Path) : Option Path :=
  if p.anchor = base.anchor && base.parts.isPrefixOf p.parts then
    some ⟨.relative, p.parts.drop base.parts.length⟩
  else none

/-- How a path is shown in a project: relative to the project root if it lies below it. -/
def display (root p : Path) : String :=
  ((p.relativeTo? root).getD p).toString

end Path

end Conformance
