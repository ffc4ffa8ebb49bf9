import Conformance.Disk

/-!
# Changes of a disk

Folders are made, files written and erased. What is made on the way to a file stays, even if the file cannot be written
in the end.
-/

namespace Conformance.Disk

/-- A changed disk, and the error that stopped the change. -/
structure Change where
  disk : Disk
  error? : Option FileError := none

/-- The slot at the end of a path; none if the path ends in two dots or has no names. -/
def slot? (d : Disk) (p : Path) : Except FileError (Option Tree.Slot) := do
  let names := d.absolute p
  let place ← d.follow p names.dropLast
  match names.getLast? with
  | none => return none
  | some name => place.slot? name

/-- The disk with a new folder at a path. -/
def makeFolder (d : Disk) (p : Path) : Except FileError Disk := do
  match ← d.slot? p with
  | none => throw .alreadyExists
  | some s => if s.tree?.isSome then throw .alreadyExists else return { d with root := s.put (.folder []) }

/-- The disk with a folder at a path, which may be there already. -/
def ensureFolder (d : Disk) (p : Path) : Change :=
  match d.makeFolder p with
  | .ok d => ⟨d, none⟩
  | .error e => ⟨d, if d.hasFolder p then none else some e⟩

/-- The disk with a folder at a path, and with the missing folders above it. The names are given from the last to the
first. -/
def ensureFolders (d : Disk) (anchor : Path.Anchor) : List String → Change
  | [] => ⟨d, none⟩
  | name :: above =>
    let p : Path := ⟨anchor, (name :: above).reverse⟩
    let change := d.ensureFolder p
    if change.error? = some .notFound then
      let around := d.ensureFolders anchor above
      if around.error?.isSome then around else around.disk.ensureFolder p
    else change

/-- The disk with a folder at a path and with the missing folders above it. -/
def addFolder (d : Disk) (p : Path) : Change := d.ensureFolders p.anchor p.parts.reverse

/-- The disk with a file at a path in a folder that is there. -/
def putFile (d : Disk) (p : Path) (bytes : ByteArray) : Except FileError Disk := do
  match ← d.slot? p with
  | none => throw .isFolder
  | some s =>
    match s.tree? with
    | some (.folder _) => throw .isFolder
    | _ => return { d with root := s.put (.file bytes) }

/-- The disk with a file at a path and with the missing folders above it. -/
def addFile (d : Disk) (p : Path) (bytes : ByteArray) : Change :=
  let around := d.ensureFolders p.anchor (p.parts.reverse.drop 1)
  if around.error?.isSome then around
  else match around.disk.putFile p bytes with
    | .ok d => ⟨d, none⟩
    | .error e => { around with error? := some e }

/-- The disk without the file at a path. -/
def erase (d : Disk) (p : Path) : Except FileError Disk := do
  match ← d.slot? p with
  | none => throw .isFolder
  | some s =>
    match s.tree? with
    | none => throw .notFound
    | some (.folder _) => throw .isFolder
    | some (.file _) => return { d with root := s.clear }

end Conformance.Disk
