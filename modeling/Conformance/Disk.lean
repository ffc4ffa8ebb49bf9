import Conformance.Tree.Place

/-!
# Disks

Paths are followed name by name from the root folder of a disk, or from its current folder.
-/

namespace Conformance

/-- A file tree from its root, and the folder that relative paths start from. -/
structure Disk where
  root : Tree
  /-- The names on the way from the root to the current folder. -/
  current : List String := []

namespace Disk

/-- The names on the way from the root to a path. -/
def absolute (d : Disk) (p : Path) : List String :=
  match p.anchor with
  | .relative => d.current ++ p.parts
  | _ => p.parts

/-- The place at the end of the first names of a path. A path with a null character names nothing, and one that is too
long cannot be used. -/
def follow (d : Disk) (p : Path) (names : List String) : Except FileError Tree.Place :=
  if p.toString.toList.contains '\x00' then .error .notFound
  else if Tree.longestPath < p.toString.utf8ByteSize then .error .nameTooLong
  else (Tree.Place.mk d.root []).follow names

/-- What lies at a path. -/
def get (d : Disk) (p : Path) : Except FileError Tree := (d.follow p (d.absolute p)).map (·.here)

/-- The bytes of the file at a path; none if there is no file. A name that is too long is an error. -/
def file? (d : Disk) (p : Path) : Except FileError (Option ByteArray) :=
  match d.get p with
  | .ok (.file bytes) => .ok (some bytes)
  | .ok (.folder _) => .ok none
  | .error .nameTooLong => .error .nameTooLong
  | .error _ => .ok none

/-- Whether a folder lies at a path. -/
def hasFolder (d : Disk) (p : Path) : Bool :=
  match d.get p with
  | .ok (.folder _) => true
  | _ => false

/-- The way from the root to a folder, with the steps back resolved. -/
def resolve (d : Disk) (p : Path) : Path :=
  let step (names : List String) (name : String) : List String :=
    if name = ".." then names.dropLast else names ++ [name]
  ⟨.root, (d.absolute p).foldl step []⟩

end Disk

end Conformance
