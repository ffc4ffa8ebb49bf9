import Conformance.Proofs.Settings.Announced
import Conformance.Proofs.Settings.Entries

/-!
# Keys without a value

A key of a document can stand there with nothing behind it; its value is null then. `Key.leftOut` is the document
without the key, and `Key.whenEmpty` says what the empty key makes of the result of that document.

Null is neither a list nor a section, so where one is expected the key counts as missing. It does not for the other
settings: null is shown as a text, and as a limit it is refused (`ofEntries_emptyKey`).
-/

namespace Conformance

namespace Value

variable {entries : List (Value × Value)} {name name' : String}

/-- Whether a key is a name. -/
def isNamed (name : String) : Value → Bool
  | text k => k = name
  | _ => false

/-- The entries but those under a name. -/
def without (name : String) (entries : List (Value × Value)) : List (Value × Value) :=
  entries.filter fun e => !isNamed name e.1

theorem entry?_cons (k v : Value) (es : List (Value × Value)) (name : String) :
    entry? ((k, v) :: es) name = if isNamed name k then some v else entry? es name := by
  cases k with
  | text k => simp [isNamed, entry?]
  | null | bool | int | float | brokenText | list | mapping => rfl

theorem entry?_without_self (name : String) (entries : List (Value × Value)) :
    entry? (without name entries) name = none := by
  induction entries with
  | nil => rfl
  | cons e es ih =>
    rw [without, List.filter_cons]
    cases he : isNamed name e.1 with
    | true => exact ih
    | false =>
      rw [Bool.not_false, if_pos rfl, entry?_cons, he]
      exact ih

theorem isNamed_of_isNamed {k : Value} (h : isNamed name k = true) (hne : name' ≠ name) : isNamed name' k = false := by
  cases k with
  | text k =>
    obtain rfl : k = name := by simpa [isNamed] using h
    simpa [isNamed] using hne.symm
  | null | bool | int | float | brokenText | list | mapping => rfl

theorem entry?_without_of_ne (hne : name' ≠ name) (entries : List (Value × Value)) :
    entry? (without name entries) name' = entry? entries name' := by
  induction entries with
  | nil => rfl
  | cons e es ih =>
    rw [without, List.filter_cons, entry?_cons]
    cases he : isNamed name e.1 with
    | true =>
      rw [isNamed_of_isNamed he hne]
      exact ih
    | false =>
      rw [Bool.not_false, if_pos rfl, entry?_cons]
      exact congrArg _ ih

theorem sameKey_text (k : Value) (name : String) : sameKey k (text name) = isNamed name k := by
  cases k with
  | text k => rfl
  | null | bool | int | float | brokenText | list | mapping => simp [sameKey, isNamed, sameKey.integer?]

theorem entry?_put_self (name : String) (v : Value) (entries : List (Value × Value)) :
    entry? (put (text name) v entries) name = some v := by
  induction entries with
  | nil => simp [put, entry?]
  | cons e es ih =>
    rw [put, sameKey_text]
    cases he : isNamed name e.1 with
    | true => rw [if_pos rfl, entry?_cons, he, if_pos rfl]
    | false =>
      rw [if_neg Bool.false_ne_true, entry?_cons, he]
      exact ih

theorem entry?_put_of_ne (hne : name' ≠ name) (v : Value) (entries : List (Value × Value)) :
    entry? (put (text name) v entries) name' = entry? entries name' := by
  induction entries with
  | nil => simp [put, entry?, hne.symm]
  | cons e es ih =>
    rw [put, sameKey_text]
    cases he : isNamed name e.1 with
    | true => rw [if_pos rfl, entry?_cons, isNamed_of_isNamed he hne, entry?_cons, isNamed_of_isNamed he hne]; rfl
    | false => rw [if_neg Bool.false_ne_true, entry?_cons, entry?_cons, ih]

end Value

namespace Settings

open Setting (Section)

/-! ## Keys -/

/-- The keys that mean something: those of the settings and those of the sections. -/
inductive Key where
  | ofSetting (x : Setting)
  | ofSection (name : Section)
deriving DecidableEq

/-- The entries that stand at a place of a document. -/
def standingAt (entries : List (Value × Value)) : Option Section → List (Value × Value)
  | none => entries
  | some name => section? entries name.key

namespace Key

/-- Where a key stands. -/
def place : Key → Option Section
  | ofSetting x => x.section?
  | ofSection _ => none

def name : Key → String
  | ofSetting x => x.key
  | ofSection name => name.key

/-- The key stands in the document and has no value. -/
def IsEmptyIn (k : Key) (entries : List (Value × Value)) : Prop :=
  Value.entry? (standingAt entries k.place) k.name = some .null

/-- The document without the key. -/
def leftOut (k : Key) (entries : List (Value × Value)) : List (Value × Value) :=
  match k.place with
  | none => Value.without k.name entries
  | some name =>
    Value.put (.text name.key) (.mapping (Value.without k.name (standingAt entries (some name)))) entries

/-- What is expected behind the key is a list or a section. -/
def IsCollection (k : Key) : Prop :=
  match k with
  | ofSetting .ignoredFolders | ofSetting .logicExemptions | ofSection _ => True
  | ofSetting _ => False

/-- The document that holds the empty key and nothing else. -/
def alone (k : Key) : List (Value × Value) :=
  match k.place with
  | none => [(.text k.name, .null)]
  | some name => [(.text name.key, .mapping [(.text k.name, .null)])]

/-- Null as a limit. -/
def nullLimit : EntryError := .limit (.wrongKind "NoneType")

/-- What the empty key makes of the result of the document without it. -/
def whenEmpty : Key → Except EntryError Settings → Except EntryError Settings
  | ofSetting .ruleSuffix, result => (fun s => { s with ruleSuffix := "None" }) <$> result
  | ofSetting .utilitiesMarker, result => (fun s => { s with utilitiesMarker := "None" }) <$> result
  | ofSetting .maxStateHooks, _ => .error nullLimit
  | ofSetting .maxEffectHooks, .error (.limit cause) => .error (.limit cause)
  | ofSetting .maxEffectHooks, _ => .error nullLimit
  | ofSetting .ignoredFolders, result => result
  | ofSetting .logicExemptions, result => result
  | ofSection _, result => result

end Key

/-! ## What is found of the settings -/

theorem lookup?_eq (entries : List (Value × Value)) (x : Setting) :
    lookup? entries x = Value.entry? (standingAt entries x.section?) x.key := by
  rw [lookup?]
  cases x.section? <;> rfl

section Standing

variable {entries : List (Value × Value)} {name name' : Section}

theorem standingAt_put_self (es : List (Value × Value)) :
    standingAt (Value.put (.text name.key) (.mapping es) entries) (some name) = es := by
  rw [standingAt, section?, Value.entry?_put_self]
  rfl

theorem standingAt_put_of_ne (hne : name' ≠ name) (v : Value) :
    standingAt (Value.put (.text name.key) v entries) (some name') = standingAt entries (some name') := by
  rw [standingAt, section?, Value.entry?_put_of_ne fun h => hne (Section.key_inj h)]
  rfl

/-- A section has no part in what stands outside of the sections. -/
theorem standingAt_without {key : String} (hne : name.key ≠ key) :
    standingAt (Value.without key entries) (some name) = standingAt entries (some name) := by
  rw [standingAt, section?, Value.entry?_without_of_ne hne]
  rfl

end Standing

section LeftOut

variable {entries : List (Value × Value)}

/-- **Without the key of a setting, the same is found of the other settings.** -/
theorem lookup?_leftOut_setting (x y : Setting) :
    lookup? ((Key.ofSetting x).leftOut entries) y = if y = x then none else lookup? entries y := by
  rw [lookup?_eq, lookup?_eq, Key.leftOut]
  simp only [Key.place, Key.name]
  cases hx : x.section? with
  | none =>
    by_cases hyx : y = x
    · subst hyx
      rw [if_pos rfl, hx]
      exact Value.entry?_without_self _ _
    · rw [if_neg hyx]
      cases hy : y.section? with
      | none => exact Value.entry?_without_of_ne (fun h => hyx (Setting.key_inj (hy.trans hx.symm) h)) _
      | some name =>
        have hne : name.key ≠ x.key := (Setting.key_ne_section hx name).symm
        exact congrArg (Value.entry? · y.key) (standingAt_without hne)
  | some name =>
    by_cases hyx : y = x
    · subst hyx
      rw [if_pos rfl, hx, standingAt_put_self]
      exact Value.entry?_without_self _ _
    · rw [if_neg hyx]
      cases hy : y.section? with
      | none => exact Value.entry?_put_of_ne (Setting.key_ne_section hy name) _ _
      | some name' =>
        by_cases hname : name' = name
        · subst hname
          rw [standingAt_put_self]
          exact Value.entry?_without_of_ne (fun h => hyx (Setting.key_inj (hy.trans hx.symm) h)) _
        · exact congrArg (Value.entry? · y.key) (standingAt_put_of_ne hname _)

/-- **Without an empty section, the same is found of all settings.** -/
theorem lookup?_leftOut_section {name : Section} (h : (Key.ofSection name).IsEmptyIn entries) (y : Setting) :
    lookup? ((Key.ofSection name).leftOut entries) y = lookup? entries y := by
  have hnull : Value.entry? entries name.key = some .null := h
  rw [lookup?_eq, lookup?_eq]
  change Value.entry? (standingAt (Value.without name.key entries) y.section?) y.key = _
  cases hy : y.section? with
  | none => exact Value.entry?_without_of_ne (Setting.key_ne_section hy name) _
  | some name' =>
    by_cases hname : name' = name
    · -- nothing stands in the section, whether it is empty or missing
      subst hname
      rw [standingAt, standingAt, section?, section?, Value.entry?_without_self, hnull]
      rfl
    · exact congrArg (Value.entry? · y.key) (standingAt_without fun h => hname (Section.key_inj h))

end LeftOut

/-! ## Reading -/

/-- The settings that are given under limits on hooks, by what is found of the others. -/
def ofShown (found : Setting → Option Value) (maxStateHooks maxEffectHooks : Int) : Except EntryError Settings := do
  let default : Settings := {}
  let ruleSuffix ← textOf default.ruleSuffix (found .ruleSuffix)
  let ignoredFolders ← textsOf default.ignoredFolders (found .ignoredFolders)
  let utilitiesMarker ← textOf default.utilitiesMarker (found .utilitiesMarker)
  let logicExemptions ← textsOf default.logicExemptions (found .logicExemptions)
  return { ruleSuffix, ignoredFolders, utilitiesMarker, logicExemptions, maxStateHooks, maxEffectHooks }

/-- The settings that are given by what is found of each. -/
def ofFound (found : Setting → Option Value) : Except EntryError Settings := do
  let default : Settings := {}
  let maxStateHooks ← limitOf default.maxStateHooks (found .maxStateHooks)
  let maxEffectHooks ← limitOf default.maxEffectHooks (found .maxEffectHooks)
  ofShown found maxStateHooks maxEffectHooks

theorem ofEntries_eq (entries : List (Value × Value)) : ofEntries entries = ofFound (lookup? entries) := rfl

theorem ofEntries_congr {entries entries' : List (Value × Value)} (h : ∀ x, lookup? entries x = lookup? entries' x) :
    ofEntries entries = ofEntries entries' := by
  rw [ofEntries_eq, ofEntries_eq, funext h]

theorem textOf_null (default : String) : textOf default (some .null) = .ok "None" := rfl

theorem textsOf_null (default : List String) : textsOf default (some .null) = textsOf default none := rfl

theorem limitOf_null (default : Int) : limitOf default (some .null) = .error Key.nullLimit := rfl

/-- What can be wrong with the others is that a value has no display. -/
theorem exists_shows_ofShown (found : Setting → Option Value) (m n : Int) :
    ∃ values, Shows (ofShown found m n) values :=
  ⟨_, (shows_textOf _ _).bind fun _ => (shows_textsOf _ _).bind fun _ => (shows_textOf _ _).bind fun _ =>
    (shows_textsOf _ _).bind fun _ => shows_pure _⟩

/-- **What null makes of the result** that there is if nothing is found of the setting. -/
theorem ofFound_null {found : Setting → Option Value} {x : Setting} (h : found x = some .null) :
    ofFound found = (Key.ofSetting x).whenEmpty (ofFound fun y => if y = x then none else found y) := by
  cases x with
  | ruleSuffix =>
    simp only [ofFound, ofShown, Key.whenEmpty, map_bind, map_pure, h, textOf_null, reduceCtorEq, ↓reduceIte]
    rfl
  | utilitiesMarker =>
    simp only [ofFound, ofShown, Key.whenEmpty, map_bind, map_pure, h, textOf_null, reduceCtorEq, ↓reduceIte]
    rfl
  | ignoredFolders => simp only [ofFound, ofShown, Key.whenEmpty, h, textsOf_null, reduceCtorEq, ↓reduceIte]
  | logicExemptions => simp only [ofFound, ofShown, Key.whenEmpty, h, textsOf_null, reduceCtorEq, ↓reduceIte]
  | maxStateHooks =>
    simp only [ofFound, h, limitOf_null]
    rfl
  | maxEffectHooks =>
    simp only [ofFound, h, limitOf_null, reduceCtorEq, ↓reduceIte]
    cases hstate : limitOf ({} : Settings).maxStateHooks (found .maxStateHooks) with
    | error e =>
      obtain ⟨-, -, cause, -, rfl⟩ := limitOf_eq_error_iff.mp hstate
      rfl
    | ok m =>
      obtain ⟨values, hshows⟩ := exists_shows_ofShown found m ({} : Settings).maxEffectHooks
      change Except.error Key.nullLimit =
        (Key.ofSetting .maxEffectHooks).whenEmpty (ofShown found m ({} : Settings).maxEffectHooks)
      cases hshown : ofShown found m ({} : Settings).maxEffectHooks with
      | ok s => rfl
      | error e =>
        obtain ⟨rfl, -⟩ := (hshows e).mp hshown
        rfl

/-- **What an empty key makes of a document.** -/
theorem ofEntries_eq_whenEmpty {k : Key} {entries : List (Value × Value)} (h : k.IsEmptyIn entries) :
    ofEntries entries = k.whenEmpty (ofEntries (k.leftOut entries)) := by
  cases k with
  | ofSetting x =>
    have hfound : lookup? entries x = some .null := (lookup?_eq entries x).trans h
    rw [ofEntries_eq, ofEntries_eq, ofFound_null hfound, funext (lookup?_leftOut_setting x)]
  | ofSection name => exact ofEntries_congr fun x => (lookup?_leftOut_section h x).symm

/-! ## Keys that count as missing -/

theorem isEmptyIn_alone (k : Key) : k.IsEmptyIn k.alone := by
  rcases k with x | name
  · cases x <;> rfl
  · cases name <;> rfl

/-- An empty key alone is seen where no collection is expected. -/
theorem ofEntries_alone_ne {k : Key} (h : ¬ k.IsCollection) : ofEntries k.alone ≠ ofEntries (k.leftOut k.alone) := by
  rcases k with x | name
  · cases x with
    | ignoredFolders | logicExemptions => exact absurd trivial h
    | ruleSuffix | utilitiesMarker | maxStateHooks | maxEffectHooks =>
      exact fun hsame => absurd (congrArg Except.toOption hsame) (by decide +kernel)
  · exact absurd trivial h

theorem whenEmpty_of_isCollection {k : Key} (h : k.IsCollection) (result : Except EntryError Settings) :
    k.whenEmpty result = result := by
  rcases k with x | name
  · cases x with
    | ignoredFolders | logicExemptions => rfl
    | ruleSuffix | utilitiesMarker | maxStateHooks | maxEffectHooks => exact h.elim
  · rfl

/-- **An empty key counts as missing iff a list or a section is expected behind it.** Another one is shown as a text,
whatever else the document holds, or refused as a limit. -/
theorem ofEntries_emptyKey (k : Key) :
    (k.IsCollection ↔ ∀ entries, k.IsEmptyIn entries → ofEntries entries = ofEntries (k.leftOut entries)) ∧
      ∀ entries, k.IsEmptyIn entries → ofEntries entries = k.whenEmpty (ofEntries (k.leftOut entries)) := by
  refine ⟨⟨fun hk entries h => ?_, fun hall => ?_⟩, fun entries h => ofEntries_eq_whenEmpty h⟩
  · rw [ofEntries_eq_whenEmpty h, whenEmpty_of_isCollection hk]
  · exact Classical.byContradiction fun hk => ofEntries_alone_ne hk (hall k.alone (isEmptyIn_alone k))

/-- An empty suffix is the text `None`, and the other settings stay as they are. -/
theorem ofEntries_emptyKey_ruleSuffix :
    ofEntries [(.text "rule_suffix", .null), (.text "business_logic", .mapping [(.text "max_state_hooks", .int 8)])] =
      .ok { ruleSuffix := "None", maxStateHooks := 8 } :=
  (ofEntries_emptyKey (.ofSetting .ruleSuffix)).2 _ rfl

/-- **Not every empty key counts as missing**: an empty suffix does not. -/
theorem not_forall_emptyKey_missing : ¬ ∀ (k : Key) (entries : List (Value × Value)), k.IsEmptyIn entries →
    ofEntries entries = ofEntries (k.leftOut entries) := by
  intro h
  have hsame : ofEntries [(.text "rule_suffix", .null)] = ofEntries [] := h (.ofSetting .ruleSuffix) _ rfl
  exact absurd (congrArg Except.toOption hsame) (by decide +kernel)

end Settings

end Conformance
