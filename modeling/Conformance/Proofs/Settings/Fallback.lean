import Conformance.Proofs.Settings.Announced

/-!
# A file of settings, named or not

The file in the project root can be named explicitly as well. The two ways of loading it agree (`Agree`): both give its
settings and say nothing, or the named file is refused where the defaults hold with one warning about the same fault, or
a fault that has no wording ends both.

`agree_loadBy` says so whatever reads the file, so that a file that cannot be read at all is covered: its reader gives
no value. `loadBy_unnamed` says what is loaded without a name, in terms of what is loaded with it.
-/

namespace Conformance.Settings

/-- How loading the file at a path ends if the file is named, and how if it is not. -/
inductive Agree (path : String) :
    Except LoadError (Settings × List LogRecord) → Except LoadError (Settings × List LogRecord) → Prop
  /-- The file gives settings. -/
  | loaded (s : Settings) : Agree path (.ok (s, [])) (.ok (s, []))
  /-- The file has a fault, which is told as an error or as a warning. -/
  | told {f : Fault} {w : Fault.Wording} (h : f.wording? path = some w) :
      Agree path (.error (.fault path f)) (.ok ({}, [⟨.warning, .settings, w.warning⟩]))
  /-- The file has a fault that is not told. -/
  | silent {f : Fault} (h : f.wording? path = none) : Agree path (.error (.fault path f)) (.error (.fault path f))

section

variable {read : Reader} {d : Disk} {root : Path} {bytes : ByteArray}

/-- The two ways agree on a file that is found. -/
theorem agree_ofFile (path : String) : Agree path (ofFile read true path bytes) (ofFile read false path bytes) := by
  unfold ofFile
  cases ofDocument (read bytes.data.toList) with
  | ok s => exact .loaded s
  | error f =>
    cases hwording : f.wording? path with
    | none =>
      simp only [hwording]
      exact .silent hwording
    | some w =>
      simp only [hwording, if_true, Bool.false_eq_true, if_false]
      exact .told hwording

variable (hfile : d.file? (pathOf root none) = .ok (some bytes))
include hfile

/-- **The two ways of loading the file in the project root agree.** -/
theorem agree_loadBy : Agree (pathOf root none).toString (loadBy read d root (some (pathOf root none)))
    (loadBy read d root none) := by
  have hnamed : d.file? (pathOf root (some (pathOf root none))) = .ok (some bytes) := hfile
  rw [loadBy, loadBy, hnamed, hfile]
  exact agree_ofFile _

/-- **What the file in the project root gives without being named**: the settings that it gives if it is named, without
a warning; the defaults and exactly one warning if the named file is refused with a message; and otherwise the same
error. -/
theorem loadBy_unnamed :
    (∀ s log, loadBy read d root (some (pathOf root none)) = .ok (s, log) →
      log = [] ∧ loadBy read d root none = .ok (s, [])) ∧
    (∀ e message, loadBy read d root (some (pathOf root none)) = .error e → e.message? = some message →
      ∃ f w, e = .fault (pathOf root none).toString f ∧ f.wording? (pathOf root none).toString = some w ∧
        loadBy read d root none = .ok ({}, [⟨.warning, .settings, w.warning⟩])) ∧
    ∀ e, loadBy read d root (some (pathOf root none)) = .error e → e.message? = none →
      loadBy read d root none = .error e := by
  have hagree : Agree _ (loadBy read d root (some (pathOf root none))) (loadBy read d root none) := agree_loadBy hfile
  generalize loadBy read d root (some (pathOf root none)) = named at hagree ⊢
  generalize loadBy read d root none = unnamed at hagree ⊢
  cases hagree with
  | loaded s =>
    refine ⟨?_, ?_, ?_⟩
    · rintro _ _ ⟨⟩
      exact ⟨rfl, rfl⟩
    · rintro _ _ ⟨⟩
    · rintro _ ⟨⟩
  | @told f w hwording =>
    refine ⟨?_, ?_, ?_⟩
    · rintro _ _ ⟨⟩
    · rintro _ _ ⟨⟩ _
      exact ⟨f, w, rfl, hwording, rfl⟩
    · rintro _ ⟨⟩ hmessage
      rw [LoadError.message?, hwording] at hmessage
      cases hmessage
  | @silent f hwording =>
    refine ⟨?_, ?_, ?_⟩
    · rintro _ _ ⟨⟩
    · rintro _ _ ⟨⟩ hmessage
      rw [LoadError.message?, hwording] at hmessage
      cases hmessage
    · rintro _ ⟨⟩ _
      rfl

end

/-- An open bracket is malformed: refused in a named file, and the cause of one warning without a name. -/
theorem loadBy_unnamed_malformed :
    (settingsDisk ⟨#[0x5B]⟩).file? (pathOf ⟨.root, []⟩ none) = .ok (some ⟨#[0x5B]⟩) ∧
      loadBy .yaml (settingsDisk ⟨#[0x5B]⟩) ⟨.root, []⟩ none =
        .ok ({}, [⟨.warning, .settings, "Failed to read /rubric.yml, using default settings"⟩]) := by
  have hfile : (settingsDisk ⟨#[0x5B]⟩).file? (pathOf ⟨.root, []⟩ none) = .ok (some ⟨#[0x5B]⟩) :=
    file?_settingsDisk (by simp)
  have hdocument : Reader.yaml [0x5B] = .error .malformed := eq_error_of_failure? (by decide +kernel)
  have hnamed : loadBy .yaml (settingsDisk ⟨#[0x5B]⟩) ⟨.root, []⟩ (some (pathOf ⟨.root, []⟩ none)) =
      .error (.fault "/rubric.yml" (.unreadable .malformed)) := by
    have hpath : (pathOf ⟨.root, []⟩ (some (pathOf ⟨.root, []⟩ none))).toString = "/rubric.yml" := by decide +kernel
    have hsame : (settingsDisk ⟨#[0x5B]⟩).file? (pathOf ⟨.root, []⟩ (some (pathOf ⟨.root, []⟩ none))) = _ := hfile
    simp [loadBy, hsame, hpath, ofFile, hdocument, ofDocument, Fault.wording?]
  obtain ⟨f, w, hf, hw, hload⟩ := (loadBy_unnamed hfile).2.1 _ _ hnamed rfl
  cases hf
  obtain rfl := Option.some.inj hw
  exact ⟨hfile, hload⟩

end Conformance.Settings
