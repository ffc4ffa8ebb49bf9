import Conformance.Tree

/-!
# Places in a file tree

A place is a tree together with the folders around it, the innermost first. So two dots lead back to the folder above,
and a change at a place is a change of the whole tree. The root lies above itself.
-/

namespace Conformance.Tree

structure Place where
  here : Tree
  /-- Each folder above: the name of what lies below in it, and its entries. -/
  above : List (String × List (String × Tree)) := []

namespace Place

/-- The folder above. -/
def up : Place → Place
  | ⟨t, []⟩ => ⟨t, []⟩
  | ⟨t, (name, entries) :: above⟩ => ⟨folder (insert name t entries), above⟩

/-- The whole tree. -/
def root (p : Place) : Tree :=
  p.above.foldl (fun t (name, entries) => folder (insert name t entries)) p.here

/-- One step on the way: the place of a name. -/
def enter (p : Place) (name : String) : Except FileError Place :=
  match p.here with
  | file _ => .error .notFolder
  | folder entries =>
    if name = ".." then .ok p.up
    else if longestName < name.utf8ByteSize then .error .nameTooLong
    else match lookup? name entries with
      | none => .error .notFound
      | some t => .ok ⟨t, (name, entries) :: p.above⟩

/-- The place at the end of a way. -/
def follow (p : Place) (names : List String) : Except FileError Place := names.foldlM enter p

end Place

/-- A name in a folder, whether or not something lies there. -/
structure Slot where
  name : String
  /-- The entries of the folder. -/
  entries : List (String × Tree)
  /-- The folders above it, as for a place. -/
  above : List (String × List (String × Tree))

namespace Slot

/-- What lies there. -/
def tree? (s : Slot) : Option Tree := lookup? s.name s.entries

/-- The whole tree with other entries in the folder. -/
def rootWith (s : Slot) (entries : List (String × Tree)) : Tree := (Place.mk (folder entries) s.above).root

/-- The whole tree with `t` under the name. -/
def put (s : Slot) (t : Tree) : Tree := s.rootWith (insert s.name t s.entries)

/-- The whole tree without the name. -/
def clear (s : Slot) : Tree := s.rootWith (erase s.name s.entries)

end Slot

/-- The slot of a name; two dots have none. -/
def Place.slot? (p : Place) (name : String) : Except FileError (Option Slot) :=
  match p.here with
  | file _ => .error .notFolder
  | folder entries =>
    if name = ".." then .ok none
    else if longestName < name.utf8ByteSize then .error .nameTooLong
    else .ok (some ⟨name, entries, p.above⟩)

end Conformance.Tree
