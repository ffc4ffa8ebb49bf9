import Conformance.Settings.Load

/-!
# Faults of settings that are announced

A file of settings can be wrong in many ways, and most are announced: by an error if the file was named, and else by a
warning, with which the defaults hold (`Announced`). Three faults are not (`Silent`): bytes that are not UTF-8, an
infinite number as a limit on hooks, and a value that should be shown as a text but has no display.
`announced_loadBy_iff` says that there are no others, whatever reads the file, as long as the reader gives a value or
says that the file is malformed or not UTF-8.
-/

namespace Conformance

namespace Value

/-- The number is infinite. -/
def IsInfinite (v : Value) : Prop := ∃ x, v = .float x ∧ x.isNaN = false ∧ x.isInf = true

theorem readInteger_ne_infinite (shown : String) (cs : List Char) :
    readInteger shown cs ≠ .error .infinite := by
  intro h
  simp only [readInteger] at h
  generalize readDigits _ = digits at h
  by_cases hdigits : digits.1.isEmpty || digits.2.head? == some '_'
  · rw [if_pos hdigits] at h
    cases h
  · rw [if_neg hdigits] at h
    split at h
    · cases h
    · split at h <;> cases h

/-- Infinite numbers are the values that are no integers for being infinite. -/
theorem toInteger_eq_infinite_iff {v : Value} : v.toInteger = .error .infinite ↔ v.IsInfinite := by
  constructor
  · intro h
    cases v with
    | float x =>
      refine ⟨x, rfl, ?_⟩
      rw [toInteger] at h
      by_cases hnan : x.isNaN <;> by_cases hinf : x.isInf <;> simp_all
    | text s => exact absurd h (readInteger_ne_infinite _ _)
    | brokenText points => exact absurd h (readInteger_ne_infinite _ _)
    | null | bool | int | list | mapping => cases h
  · rintro ⟨x, rfl, hnan, hinf⟩
    rw [toInteger, if_neg (by simp only [hnan, Bool.false_eq_true, not_false_eq_true]), if_pos hinf]

end Value

namespace Settings

/-! ## Values that are shown -/

section Shows

variable {α β : Type}

theorem bind_eq_error_iff {x : Except EntryError α} {f : α → Except EntryError β} {e : EntryError} :
    x >>= f = .error e ↔ x = .error e ∨ ∃ a, x = .ok a ∧ f a = .error e := by
  cases x <;> simp [bind, Except.bind]

/-- All that can go wrong is that one of the values has no display. -/
def Shows (x : Except EntryError α) (values : List Value) : Prop :=
  ∀ e, x = .error e ↔ e = .noDisplay ∧ ∃ v ∈ values, ¬ v.isShowable

theorem shows_pure (a : α) : Shows (pure a) [] := by
  intro e
  simp [pure, Except.pure]

theorem Shows.bind {x : Except EntryError α} {f : α → Except EntryError β} {vs ws : List Value} (hx : Shows x vs)
    (hf : ∀ a, Shows (f a) ws) : Shows (x >>= f) (vs ++ ws) := by
  intro e
  rw [bind_eq_error_iff, hx]
  cases h : x with
  | error e' =>
    -- what went wrong first is the end
    obtain ⟨rfl, v, hv, hshow⟩ := (hx e').mp h
    simp only [reduceCtorEq, false_and, exists_false, or_false]
    exact and_congr_right fun _ => ⟨fun ⟨u, hu, h⟩ => ⟨u, List.mem_append_left _ hu, h⟩, fun _ => ⟨v, hv, hshow⟩⟩
  | ok a =>
    have hall : ¬ ∃ v ∈ vs, ¬ v.isShowable := fun hv => by simpa [h] using (hx .noDisplay).mpr ⟨rfl, hv⟩
    simp only [List.mem_append, or_and_right, exists_or, hall, and_false, false_or, Except.ok.injEq]
    exact ⟨fun ⟨b, hb, he⟩ => (hf b e).mp he, fun he => ⟨a, rfl, (hf a e).mpr he⟩⟩

theorem shows_displayOf (v : Value) : Shows (displayOf v) [v] := by
  intro e
  rw [displayOf]
  split
  · rename_i hv
    simp [hv]
  · rename_i hv
    rw [Except.error.injEq]
    exact ⟨fun he => ⟨he.symm, v, List.mem_singleton_self v, hv⟩, fun he => he.1.symm⟩

theorem shows_mapM (items : List Value) : Shows (items.mapM displayOf) items := by
  induction items with
  | nil => exact shows_pure []
  | cons v items ih =>
    rw [List.mapM_cons]
    have hrest : ∀ s, Shows (items.mapM displayOf >>= fun ss => pure (s :: ss)) items := fun s => by
      simpa using ih.bind fun ss => shows_pure (s :: ss)
    exact (shows_displayOf v).bind hrest

/-- The items of a list that is given; none if something else is. -/
def listed : Option Value → List Value
  | some (.list items) => items
  | _ => []

theorem shows_textOf (default : String) (v? : Option Value) : Shows (textOf default v?) v?.toList := by
  cases v? with
  | none => exact shows_pure default
  | some v => exact shows_displayOf v

theorem shows_textsOf (default : List String) (v? : Option Value) : Shows (textsOf default v?) (listed v?) := by
  unfold textsOf listed
  split
  · exact shows_pure _
  · exact shows_pure _
  · exact shows_mapM _
  · rename_i hlist
    split
    · exact absurd rfl (hlist _)
    · exact shows_pure _

end Shows

/-! ## Limits -/

section MapError

variable {ε ε' α : Type} (f : ε → ε')

@[simp] theorem mapError_ok (a : α) : (Except.ok a).mapError f = .ok a := rfl

@[simp] theorem mapError_error (e : ε) : (Except.error e : Except ε α).mapError f = .error (f e) := rfl

end MapError

section Entries

/-- A limit that is given is an integer. -/
def IsLimit (v? : Option Value) : Prop := ∀ v ∈ v?, ∃ n, v.toInteger = .ok n

variable {entries : List (Value × Value)} {e : EntryError} {default : Int} {v? : Option Value}

theorem limitOf_eq_ok_iff : (∃ n, limitOf default v? = .ok n) ↔ IsLimit v? := by
  cases v? with
  | none => simp [limitOf, IsLimit]
  | some v => cases h : v.toInteger <;> simp [limitOf, IsLimit, h]

theorem limitOf_eq_error_iff :
    limitOf default v? = .error e ↔ ∃ v ∈ v?, ∃ cause, v.toInteger = .error cause ∧ e = .limit cause := by
  cases v? with
  | none => simp [limitOf]
  | some v => cases h : v.toInteger <;> simp [limitOf, h, eq_comm]

/-- The limit on state hooks in a document. -/
def stateLimit? (entries : List (Value × Value)) : Option Value :=
  Value.entry? (section? entries "business_logic") "max_state_hooks"

/-- The limit on effect hooks in a document. -/
def effectLimit? (entries : List (Value × Value)) : Option Value :=
  Value.entry? (section? entries "business_logic") "max_effect_hooks"

/-- The values in a document that are shown as texts. -/
def shownValues (entries : List (Value × Value)) : List Value :=
  [(Value.entry? entries "rule_suffix").toList, listed (Value.entry? entries "ignore_dirs"),
    (Value.entry? (section? entries "unused_exports") "location").toList,
    listed (Value.entry? (section? entries "business_logic") "skip")].flatten

/-- **What can be wrong with entries**: the limits, one after the other, and then what is shown. -/
theorem ofEntries_eq_error_iff : ofEntries entries = .error e ↔
    (∃ v ∈ stateLimit? entries, ∃ cause, v.toInteger = .error cause ∧ e = .limit cause) ∨
      IsLimit (stateLimit? entries) ∧
        ((∃ v ∈ effectLimit? entries, ∃ cause, v.toInteger = .error cause ∧ e = .limit cause) ∨
          IsLimit (effectLimit? entries) ∧ e = .noDisplay ∧ ∃ v ∈ shownValues entries, ¬ v.isShowable) := by
  rw [ofEntries, bind_eq_error_iff, limitOf_eq_error_iff]
  refine or_congr Iff.rfl ?_
  rw [← limitOf_eq_ok_iff, ← exists_and_right]
  refine exists_congr fun maxStateHooks => and_congr_right fun _ => ?_
  rw [bind_eq_error_iff, limitOf_eq_error_iff]
  refine or_congr Iff.rfl ?_
  rw [← limitOf_eq_ok_iff, ← exists_and_right]
  refine exists_congr fun maxEffectHooks => and_congr_right fun _ => ?_
  exact ((shows_textOf _ _).bind fun ruleSuffix => (shows_textsOf _ _).bind fun ignoredFolders =>
    (shows_textOf _ _).bind fun utilitiesMarker => (shows_textsOf _ _).bind fun logicExemptions =>
      shows_pure _) e

end Entries

/-! ## Documents -/

/-- The documents with a fault that is not announced. -/
inductive Silent : Except Yaml.Failure Value → Prop
  /-- The bytes are not UTF-8. -/
  | invalidBytes : Silent (.error .invalidBytes)
  /-- The limit on state hooks is an infinite number. -/
  | stateLimit {entries : List (Value × Value)} {v : Value} (hv : v ∈ stateLimit? entries) (h : v.IsInfinite) :
      Silent (.ok (.mapping entries))
  /-- The limit on effect hooks is an infinite number, and nothing is wrong before it. -/
  | effectLimit {entries : List (Value × Value)} {v : Value} (hstate : IsLimit (stateLimit? entries))
      (hv : v ∈ effectLimit? entries) (h : v.IsInfinite) : Silent (.ok (.mapping entries))
  /-- The limits are right, and a value that should be shown has no display. -/
  | noDisplay {entries : List (Value × Value)} {v : Value} (hstate : IsLimit (stateLimit? entries))
      (heffect : IsLimit (effectLimit? entries)) (hv : v ∈ shownValues entries) (h : ¬ v.isShowable) :
      Silent (.ok (.mapping entries))

section Documents

variable {entries : List (Value × Value)} (path : String)

theorem wording_entries_eq_none_iff {e : EntryError} :
    (Fault.entries e).wording? path = none ↔ e = .limit .infinite ∨ e = .noDisplay := by
  cases e with
  | limit cause => cases cause <;> simp [Fault.wording?]
  | noDisplay => simp [Fault.wording?]

theorem silent_mapping_iff :
    Silent (.ok (.mapping entries)) ↔
      ofEntries entries = .error (.limit .infinite) ∨ ofEntries entries = .error .noDisplay := by
  rw [ofEntries_eq_error_iff, ofEntries_eq_error_iff]
  constructor
  · intro h
    cases h with
    | stateLimit hv h => exact .inl (.inl ⟨_, hv, _, Value.toInteger_eq_infinite_iff.mpr h, rfl⟩)
    | effectLimit hstate hv h =>
      exact .inl (.inr ⟨hstate, .inl ⟨_, hv, _, Value.toInteger_eq_infinite_iff.mpr h, rfl⟩⟩)
    | noDisplay hstate heffect hv h => exact .inr (.inr ⟨hstate, .inr ⟨heffect, rfl, _, hv, h⟩⟩)
  · rintro ((⟨v, hv, cause, hcause, he⟩ | ⟨hstate, ⟨v, hv, cause, hcause, he⟩ | ⟨-, he, -⟩⟩) |
      (⟨v, -, cause, -, he⟩ | ⟨hstate, ⟨v, -, cause, -, he⟩ | ⟨heffect, -, v, hv, hshow⟩⟩))
    · cases he
      exact .stateLimit hv (Value.toInteger_eq_infinite_iff.mp hcause)
    · cases he
      exact .effectLimit hstate hv (Value.toInteger_eq_infinite_iff.mp hcause)
    · cases he
    · cases he
    · cases he
    · exact .noDisplay hstate heffect hv hshow

theorem not_silent_malformed : ¬ Silent (.error .malformed) := by
  intro h
  cases h

/-- **The silent documents are those with a fault that has no wording**, if they are read or malformed or not UTF-8. -/
theorem silent_iff {document : Except Yaml.Failure Value}
    (hread : ∀ e, document = .error e → e = .malformed ∨ e = .invalidBytes) :
    Silent document ↔ ∃ f, ofDocument document = .error f ∧ f.wording? path = none := by
  cases document with
  | error e =>
    rcases hread e rfl with rfl | rfl
    · refine iff_of_false not_silent_malformed ?_
      rintro ⟨f, hf, hwording⟩
      cases hf
      cases hwording
    · exact ⟨fun _ => ⟨_, rfl, rfl⟩, fun _ => .invalidBytes⟩
  | ok v =>
    cases v with
    | mapping entries =>
      rw [silent_mapping_iff, ofDocument]
      cases ofEntries entries with
      | ok s => simp
      | error e => simp [wording_entries_eq_none_iff]
    | null =>
      refine iff_of_false (fun h => by cases h) ?_
      rintro ⟨f, hf, -⟩
      cases hf
    | bool | int | float | text | brokenText | list =>
      refine iff_of_false (fun h => by cases h) ?_
      rintro ⟨f, hf, hwording⟩
      cases hf
      cases hwording

end Documents

/-! ## Loading -/

/-- The settings that are given: those of the document, or the defaults if there is no file and none was named. -/
def given? (read : Reader) (d : Disk) (root : Path) (explicit? : Option Path) : Option Settings :=
  match d.file? (pathOf root explicit?) with
  | .ok (some bytes) => (ofDocument (read bytes.data.toList)).toOption
  | _ => if explicit?.isSome then none else some {}

/-- How loading ends if every fault is announced. -/
inductive Announced (explicit : Bool) (given? : Option Settings) :
    Except LoadError (Settings × List LogRecord) → Prop
  /-- Settings are given. -/
  | loaded {s : Settings} (h : given? = some s) : Announced explicit given? (.ok (s, []))
  /-- No settings are given, and the defaults hold with a warning. -/
  | warned (h : given? = none) (hexplicit : explicit = false) (message : String) :
      Announced explicit given? (.ok ({}, [⟨.warning, .settings, message⟩]))
  /-- No settings are given where the named file should give them, and the error says so. -/
  | refused (h : given? = none) (hexplicit : explicit = true) {e : LoadError} {message : String}
      (hmessage : e.message? = some message) : Announced explicit given? (.error e)

section Loading

variable {read : Reader} {d : Disk} {root : Path} {explicit? : Option Path}

/-- Reading a file ends as announced iff the file has no silent fault. -/
theorem announced_ofFile_iff {explicit : Bool} {path : String} {bytes : ByteArray}
    (hread : ∀ e, read bytes.data.toList = .error e → e = .malformed ∨ e = .invalidBytes) :
    Announced explicit (ofDocument (read bytes.data.toList)).toOption (ofFile read explicit path bytes) ↔
      ¬ Silent (read bytes.data.toList) := by
  rw [silent_iff path hread, ofFile]
  cases ofDocument (read bytes.data.toList) with
  | ok s => exact iff_of_true (.loaded rfl) (by simp)
  | error f =>
    cases hwording : f.wording? path with
    | none =>
      simp only [Except.error.injEq, exists_eq_left', hwording, not_true_eq_false, iff_false]
      intro h
      cases h with
      | refused _ _ hmessage => simp [LoadError.message?, hwording] at hmessage
    | some w =>
      simp only [Except.error.injEq, exists_eq_left', hwording, reduceCtorEq, not_false_eq_true, iff_true]
      cases explicit with
      | false => exact .warned rfl rfl _
      | true => exact .refused rfl rfl (by rw [LoadError.message?, hwording]; rfl)

/-- **Loading settings ends as announced iff the file has no silent fault**: without a name it gives the settings of
the file, or the defaults and a warning; with a name it fails with an announced error only. -/
theorem announced_loadBy_iff {bytes? : Option ByteArray} (hfile : d.file? (pathOf root explicit?) = .ok bytes?)
    (hread : ∀ bytes ∈ bytes?, ∀ e, read bytes.data.toList = .error e → e = .malformed ∨ e = .invalidBytes) :
    Announced explicit?.isSome (given? read d root explicit?) (loadBy read d root explicit?) ↔
      ∀ bytes ∈ bytes?, ¬ Silent (read bytes.data.toList) := by
  rw [given?, loadBy, hfile]
  cases bytes? with
  | none =>
    refine iff_of_true ?_ (by simp)
    cases explicit? with
    | none => exact .loaded rfl
    | some path => exact .refused rfl rfl rfl
  | some bytes => simpa using announced_ofFile_iff (hread bytes rfl)

end Loading

/-- Why a document has no value, if it has none. -/
def failure? : Except Yaml.Failure Value → Option Yaml.Failure
  | .error e => some e
  | .ok _ => none

theorem eq_error_of_failure? {document : Except Yaml.Failure Value} {e : Yaml.Failure}
    (h : failure? document = some e) : document = .error e := by
  cases document with
  | error e' => exact congrArg _ (Option.some.inj h)
  | ok v => cases h

/-- A disk with a file of settings in its root. -/
def settingsDisk (bytes : ByteArray) : Disk := ⟨.folder [(fileName, .file bytes)], []⟩

/-- The file of settings is found, whether it is named or not. -/
theorem file?_settingsDisk {bytes : ByteArray} {explicit? : Option Path}
    (h : explicit? ∈ [none, some ⟨.root, [fileName]⟩]) :
    (settingsDisk bytes).file? (pathOf ⟨.root, []⟩ explicit?) = .ok (some bytes) := by
  simp only [List.mem_cons, List.not_mem_nil, or_false] at h
  rcases h with rfl | rfl <;> rfl

/-- An open bracket is malformed. -/
theorem announced_loadBy_malformed :
    Announced false none (loadBy .yaml (settingsDisk ⟨#[0x5B]⟩) ⟨.root, []⟩ none) ∧
      Announced true none (loadBy .yaml (settingsDisk ⟨#[0x5B]⟩) ⟨.root, []⟩ (some ⟨.root, [fileName]⟩)) := by
  have hdocument : Reader.yaml [0x5B] = .error .malformed := eq_error_of_failure? (by decide +kernel)
  have hread : ∀ bytes ∈ some (ByteArray.mk #[0x5B]), ∀ e, Reader.yaml bytes.data.toList = .error e →
      e = .malformed ∨ e = .invalidBytes := by
    rintro _ ⟨⟩ e he
    rw [hdocument] at he
    exact .inl (Except.error.inj he).symm
  have hsilent : ∀ bytes ∈ some (ByteArray.mk #[0x5B]), ¬ Silent (Reader.yaml bytes.data.toList) := by
    rintro _ ⟨⟩
    rw [hdocument]
    exact not_silent_malformed
  have hboth : ∀ explicit? ∈ [none, some (Path.mk .root [fileName])],
      Announced explicit?.isSome none (loadBy .yaml (settingsDisk ⟨#[0x5B]⟩) ⟨.root, []⟩ explicit?) := by
    intro explicit? hexplicit
    have hgiven : given? .yaml (settingsDisk ⟨#[0x5B]⟩) ⟨.root, []⟩ explicit? = none := by
      simp [given?, file?_settingsDisk hexplicit, hdocument, ofDocument, Except.toOption]
    have h := (announced_loadBy_iff (file?_settingsDisk hexplicit) hread).mpr hsilent
    rwa [hgiven] at h
  exact ⟨hboth none (by simp), hboth (some _) (by simp)⟩

/-- **Bytes that are not UTF-8 are not announced**, whether the file is named or not. -/
theorem loadBy_invalidBytes :
    Reader.yaml [0xFF] = .error .invalidBytes ∧ ∀ explicit? ∈ [none, some (Path.mk .root [fileName])], ∃ e,
      loadBy .yaml (settingsDisk ⟨#[0xFF]⟩) ⟨.root, []⟩ explicit? = .error e ∧ e.message? = none := by
  have hdocument : Reader.yaml [0xFF] = .error .invalidBytes := eq_error_of_failure? (by decide +kernel)
  refine ⟨hdocument, fun explicit? hexplicit => ?_⟩
  have hload : loadBy .yaml (settingsDisk ⟨#[0xFF]⟩) ⟨.root, []⟩ explicit? =
      .error (.fault (pathOf ⟨.root, []⟩ explicit?).toString (.unreadable .invalidBytes)) := by
    simp [loadBy, file?_settingsDisk hexplicit, ofFile, hdocument, ofDocument, Fault.wording?]
  exact ⟨_, hload, rfl⟩

end Settings

end Conformance
