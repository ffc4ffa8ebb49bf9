import Conformance.Path
import Conformance.Text.Quoted

/-!
# File trees

A tree is a file with its bytes or a folder of named trees.
-/

namespace Conformance

inductive Tree where
  | file (bytes : ByteArray)
  | folder (entries : List (String × Tree))
deriving Inhabited

/-- Why a path cannot be used. -/
inductive FileError where
  | notFound
  | notFolder
  | isFolder
  | alreadyExists
  | nameTooLong
deriving DecidableEq, Repr

namespace FileError

/-- The number of an error. -/
def number : FileError → Nat
  | notFound => 2
  | alreadyExists => 17
  | notFolder => 20
  | isFolder => 21
  | nameTooLong => 36

/-- The wording of an error. -/
def wording : FileError → String
  | notFound => "No such file or directory"
  | alreadyExists => "File exists"
  | notFolder => "Not a directory"
  | isFolder => "Is a directory"
  | nameTooLong => "File name too long"

end FileError

/-- An error of the file tree at a path. -/
structure AccessError where
  path : Path
  cause : FileError
deriving DecidableEq, Repr

/-- The wording of an error at a path, with its number and the path in quotes. -/
def AccessError.message (e : AccessError) : String :=
  "[Errno " ++ toString e.cause.number ++ "] " ++ e.cause.wording ++ ": " ++ Text.quoted e.path.toString

namespace Tree

/-- The longest name, in bytes. -/
def longestName : Nat := 255

/-- The longest path, in bytes. -/
def longestPath : Nat := 4095

/-- The tree with a name in a folder. -/
def lookup? (name : String) : List (String × Tree) → Option Tree
  | [] => none
  | (n, t) :: es => if n = name then some t else lookup? name es

/-- The entries with the tree of a name replaced or added. -/
def insert (name : String) (tree : Tree) : List (String × Tree) → List (String × Tree)
  | [] => [(name, tree)]
  | (n, t) :: es => if n = name then (name, tree) :: es else (n, t) :: insert name tree es

/-- The entries without a name. -/
def erase (name : String) (entries : List (String × Tree)) : List (String × Tree) :=
  entries.filter (·.1 != name)

/-- The tree with another tree at a path, whatever stood on the way. -/
def graft (t new : Tree) : List String → Tree
  | [] => new
  | name :: rest =>
    let entries := match t with
      | file _ => []
      | folder entries => entries
    folder (insert name (graft ((lookup? name entries).getD (folder [])) new rest) entries)

end Tree

end Conformance
