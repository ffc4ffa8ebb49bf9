import Conformance.Settings.Cases

/-!
# Both ways of loading settings

`Settings.loadBy` tells both ways of loading settings as one, with the texts of a fault in its wording. It agrees with
the two told apart: on a file that is named, messages included (`loadBy_some`), and on the file in the project root,
warnings included (`loadBy_none`).
-/

namespace Conformance.Settings

/-- A load error as the user meets it. -/
def LoadError.refusal (e : LoadError) : Refusal :=
  match e.message? with
  | some message => .told message
  | none => .silent e

/-- What loading a named file comes to, as the user meets it. -/
def refused : Except LoadError (Settings × List LogRecord) → Except Refusal (Settings × List LogRecord)
  | .ok loaded => .ok loaded
  | .error e => .error e.refusal

section

variable (read : Reader) (d : Disk)

/-- Whatever the document is like, its faults are told as in each of the two cases. -/
theorem ofFile_eq (path : String) (bytes : ByteArray) :
    refused (ofFile read true path bytes) =
        (ofNamedDocument path (read bytes.data.toList)).map (fun s => (s, [])) ∧
      ofFile read false path bytes = ofUnnamedDocument path (read bytes.data.toList) := by
  simp only [ofFile]
  cases read bytes.data.toList with
  | error e => cases e <;> exact ⟨rfl, rfl⟩
  | ok v =>
    cases v with
    | mapping entries =>
      simp only [ofDocument, ofNamedDocument, ofUnnamedDocument]
      cases ofEntries entries with
      | ok s => exact ⟨rfl, rfl⟩
      | error e =>
        cases e with
        | noDisplay => exact ⟨rfl, rfl⟩
        | limit cause => cases cause <;> exact ⟨rfl, rfl⟩
    | null | bool | int | float | text | brokenText | list => exact ⟨rfl, rfl⟩

/-- **A named file** gives its settings without a log record, or it is refused with the message of its fault. -/
theorem loadBy_some (root path : Path) :
    refused (loadBy read d root (some path)) = (loadNamed read d path).map fun s => (s, []) := by
  have hpath : pathOf root (some path) = path := rfl
  rw [loadBy, loadNamed, hpath]
  cases d.file? path with
  | error e => rfl
  | ok bytes? =>
    cases bytes? with
    | none => rfl
    | some bytes => exact (ofFile_eq read path.toString bytes).1

/-- **The file in the project root** gives its settings, or the defaults with the warning about its fault. -/
theorem loadBy_none (root : Path) : loadBy read d root none = loadUnnamed read d root := by
  have hpath : pathOf root none = root.join ⟨.relative, [fileName]⟩ := rfl
  rw [loadBy, loadUnnamed, hpath]
  cases d.file? (root.join ⟨.relative, [fileName]⟩) with
  | error e => rfl
  | ok bytes? =>
    cases bytes? with
    | none => rfl
    | some bytes => exact (ofFile_eq read _ bytes).2

end

end Conformance.Settings
