import Conformance.Tree

/-!
# Finding rule files

Rules stand in files whose names end in a suffix, in every folder of a project but the hidden and the ignored ones. The
files of a folder are listed in the order of their names, those of an inner folder where the folder's own name stands.
-/

namespace Conformance

/-- Which files hold rules, and where they are looked for. -/
structure RuleSearch where
  /-- The end of the names of rule files. -/
  suffix : String
  /-- Names of folders that are not entered. -/
  ignoredFolders : List String
deriving DecidableEq, Repr

/-- A file that was found, with the names on the way to it. -/
structure FoundFile where
  way : List String
  bytes : ByteArray

/-- The file as it is found from one folder further up, in which the searched folder is called `name`. -/
def FoundFile.under (name : String) (f : FoundFile) : FoundFile := { f with way := name :: f.way }

namespace RuleSearch

/-- Whether a file of this name holds a rule. -/
def accepts (s : RuleSearch) (name : String) : Bool :=
  s.suffix.toList.isSuffixOf name.toList

/-- Whether a folder of this name is entered. -/
def enters (s : RuleSearch) (name : String) : Bool :=
  name.toList.head? != some '.' && !s.ignoredFolders.contains name

/-- What was found at each name, in the order of the names. -/
def inNameOrder (found : List (String × List FoundFile)) : List FoundFile :=
  (found.mergeSort fun a b => a.1 ≤ b.1).flatMap (·.2)

mutual

/-- What is found at a tree of the given name. -/
def atTree (s : RuleSearch) (name : String) : Tree → List FoundFile
  | .file bytes => if s.accepts name then [⟨[name], bytes⟩] else []
  | .folder entries => if s.enters name then (inNameOrder (s.atEntries entries)).map (·.under name) else []

/-- What is found at an entry of a folder, with its name. -/
def atEntry (s : RuleSearch) : String × Tree → String × List FoundFile
  | (name, tree) => (name, s.atTree name tree)

/-- What is found at each entry of a folder. -/
def atEntries (s : RuleSearch) : List (String × Tree) → List (String × List FoundFile)
  | [] => []
  | e :: es => s.atEntry e :: s.atEntries es

end

/-- The rule files below a folder with these entries, however deep they lie. That the path of a file may be too long to
be used is left out here, and counts where targets are looked up (`Disk.follow`). -/
def find (s : RuleSearch) (entries : List (String × Tree)) : List FoundFile :=
  inNameOrder (s.atEntries entries)

end RuleSearch

end Conformance
