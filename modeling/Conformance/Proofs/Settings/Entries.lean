import Conformance.Settings.Reading

/-!
# Documents that give settings

A document can give any choice of the settings: each has a key of its own, and four of the keys stand in two sections.
`Document` is such a document with whatever else it holds, in any order, and `Document.write` makes one.

Reading a document gives the settings that it gives, and the defaults for the others (`ofEntries_document`). So no
setting has an influence on another, and nothing else that a document holds has one.
-/

namespace Conformance

namespace Value

variable {entries : List (Value × Value)} {name : String} {v : Value} {v? : Option Value}

/-- The entries have this value under the name and no other; none if there is no value. -/
def Holds (entries : List (Value × Value)) (name : String) (v? : Option Value) : Prop :=
  ∀ v, (text name, v) ∈ entries ↔ v ∈ v?

theorem mem_of_entry?_eq_some (h : entry? entries name = some v) : (text name, v) ∈ entries := by
  fun_induction entry? entries name with
  | case1 => cases h
  | case2 w es =>
    obtain rfl := Option.some.inj h
    exact List.mem_cons_self
  | case3 k w es hk ih => exact List.mem_cons_of_mem _ (ih h)
  | case4 e es hother ih => exact List.mem_cons_of_mem _ (ih h)

theorem isSome_entry?_of_mem (h : (text name, v) ∈ entries) : (Value.entry? entries name).isSome = true := by
  fun_induction entry? entries name with
  | case1 => cases h
  | case2 => rfl
  | case3 k w es hk ih =>
    refine ih ((List.mem_cons.mp h).resolve_left ?_)
    intro heq
    cases heq
    exact hk rfl
  | case4 e es hother ih =>
    refine ih ((List.mem_cons.mp h).resolve_left ?_)
    rintro rfl
    exact hother name v rfl

/-- What the entries have under a name is found there. -/
theorem Holds.entry?_eq (h : Holds entries name v?) : entry? entries name = v? := by
  cases hfound : entry? entries name with
  | some v => exact ((h v).mp (mem_of_entry?_eq_some hfound)).symm
  | none =>
    cases hv : v? with
    | none => rfl
    | some v =>
      have hsome := isSome_entry?_of_mem ((h v).mpr hv)
      rw [hfound] at hsome
      cases hsome

end Value

/-! ## Settings one by one -/

inductive Setting where
  | ruleSuffix
  | ignoredFolders
  | utilitiesMarker
  | logicExemptions
  | maxStateHooks
  | maxEffectHooks
deriving DecidableEq

/-- The sections of a document. -/
inductive Setting.Section where
  | unusedExports
  | businessLogic
deriving DecidableEq

namespace Setting

def all : List Setting :=
  [ruleSuffix, ignoredFolders, utilitiesMarker, logicExemptions, maxStateHooks, maxEffectHooks]

theorem mem_all (x : Setting) : x ∈ all := by
  cases x <;> decide

/-- The section that a setting stands in, if it stands in one. -/
def section? : Setting → Option Section
  | ruleSuffix | ignoredFolders => none
  | utilitiesMarker => some .unusedExports
  | logicExemptions | maxStateHooks | maxEffectHooks => some .businessLogic

def key : Setting → String
  | ruleSuffix => "rule_suffix"
  | ignoredFolders => "ignore_dirs"
  | utilitiesMarker => "location"
  | logicExemptions => "skip"
  | maxStateHooks => "max_state_hooks"
  | maxEffectHooks => "max_effect_hooks"

def Section.all : List Section := [unusedExports, businessLogic]

theorem Section.mem_all (name : Section) : name ∈ all := by
  cases name <;> decide

def Section.key : Section → String
  | unusedExports => "unused_exports"
  | businessLogic => "business_logic"

theorem Section.key_inj {name name' : Section} (h : name.key = name'.key) : name = name' := by
  revert h
  cases name <;> cases name' <;> decide

/-- Settings that stand together have different keys. -/
theorem key_inj {x y : Setting} (hplace : x.section? = y.section?) (h : x.key = y.key) : x = y := by
  revert hplace h
  cases x <;> cases y <;> decide

/-- No setting outside of the sections has the key of a section. -/
theorem key_ne_section {x : Setting} (h : x.section? = none) (name : Section) : x.key ≠ name.key := by
  revert h
  cases x <;> cases name <;> decide

end Setting

namespace Settings

open Setting (Section)

/-- How a document writes a setting. -/
def valueOf (s : Settings) : Setting → Value
  | .ruleSuffix => .text s.ruleSuffix
  | .ignoredFolders => .list (s.ignoredFolders.map .text)
  | .utilitiesMarker => .text s.utilitiesMarker
  | .logicExemptions => .list (s.logicExemptions.map .text)
  | .maxStateHooks => .int s.maxStateHooks
  | .maxEffectHooks => .int s.maxEffectHooks

/-- The value of a setting, if it is given. -/
def value? (s : Settings) (given : Setting → Bool) (x : Setting) : Option Value :=
  if given x then some (s.valueOf x) else none

theorem mem_value?_iff {s : Settings} {given : Setting → Bool} {x : Setting} {v : Value} :
    v ∈ s.value? given x ↔ given x = true ∧ s.valueOf x = v := by
  rw [value?]
  cases given x <;> simp

/-- The settings that are given, and the defaults for the others. -/
def chosen (s : Settings) (given : Setting → Bool) : Settings :=
  let default : Settings := {}
  { ruleSuffix := if given .ruleSuffix then s.ruleSuffix else default.ruleSuffix
    ignoredFolders := if given .ignoredFolders then s.ignoredFolders else default.ignoredFolders
    utilitiesMarker := if given .utilitiesMarker then s.utilitiesMarker else default.utilitiesMarker
    logicExemptions := if given .logicExemptions then s.logicExemptions else default.logicExemptions
    maxStateHooks := if given .maxStateHooks then s.maxStateHooks else default.maxStateHooks
    maxEffectHooks := if given .maxEffectHooks then s.maxEffectHooks else default.maxEffectHooks }

/-! ## Documents -/

/-- The entries at a place of a document: in a section, none of which has to be there, or outside of the sections. -/
def entriesAt (entries : List (Value × Value)) (sections : Section → Option (List (Value × Value))) :
    Option Section → List (Value × Value)
  | none => entries
  | some name => (sections name).getD []

/-- A document that gives exactly the chosen settings. Its entries and those of its sections can have any order, and
others among them. -/
structure Document (s : Settings) (given : Setting → Bool) where
  entries : List (Value × Value)
  /-- The entries of each section that is there. -/
  sections : Section → Option (List (Value × Value))
  holds_section : ∀ name, Value.Holds entries name.key ((sections name).map .mapping)
  holds_setting : ∀ x, Value.Holds (entriesAt entries sections x.section?) x.key (s.value? given x)

namespace Document

variable {s : Settings} {given : Setting → Bool} (d : Document s given)

theorem section?_eq (name : Section) : section? d.entries name.key = entriesAt d.entries d.sections (some name) := by
  rw [section?, (d.holds_section name).entry?_eq]
  cases hname : d.sections name <;> simp [entriesAt, hname, Value.entries]

/-- What is found of a setting. -/
theorem entry?_eq (x : Setting) :
    Value.entry? (entriesAt d.entries d.sections x.section?) x.key = s.value? given x :=
  (d.holds_setting x).entry?_eq

end Document

/-! ## Writing -/

/-- A key that means nothing at a place of a document: it is neither that of a setting there nor that of a section. -/
structure IsOther (place : Option Section) (key : Value) : Prop where
  ne_setting : ∀ x : Setting, x.section? = place → key ≠ .text x.key
  ne_section : place = none → ∀ name : Section, key ≠ .text name.key

section Writing

variable (s : Settings) (given : Setting → Bool) (others : Option Section → List (Value × Value))

/-- The entries of the given settings at a place, and the other ones. -/
def writtenAt (place : Option Section) : List (Value × Value) :=
  ((Setting.all.filter fun x => x.section? = place && given x).map fun x => (.text x.key, s.valueOf x)) ++ others place

/-- The sections that are not empty. -/
def writtenIn (name : Section) : Option (List (Value × Value)) :=
  if writtenAt s given others (some name) = [] then none else some (writtenAt s given others (some name))

/-- All entries that do not stand in a section. -/
def written : List (Value × Value) :=
  (Section.all.filterMap fun name =>
    (writtenIn s given others name).map fun entries => (.text name.key, .mapping entries)) ++
  writtenAt s given others none

/-- Nothing in a section or under its name counts for the settings outside of the sections. -/
theorem mem_written_iff {x : Setting} (hx : x.section? = none) {v : Value} :
    (.text x.key, v) ∈ written s given others ↔ (.text x.key, v) ∈ writtenAt s given others none := by
  rw [written, List.mem_append, or_iff_right]
  intro h
  obtain ⟨name, -, h⟩ := List.mem_filterMap.mp h
  obtain ⟨es, -, heq⟩ := Option.map_eq_some_iff.mp h
  exact Setting.key_ne_section hx name (Value.text.inj (Prod.mk.inj heq).1).symm

theorem getD_writtenIn (name : Section) :
    (writtenIn s given others name).getD [] = writtenAt s given others (some name) := by
  rw [writtenIn]
  split
  · rename_i hnil
    exact hnil.symm
  · rfl

variable {others} (hothers : ∀ place, ∀ e ∈ others place, IsOther place e.1)
include hothers

theorem mem_writtenAt_iff {x : Setting} {v : Value} :
    (.text x.key, v) ∈ writtenAt s given others x.section? ↔ v ∈ s.value? given x := by
  have hother : (.text x.key, v) ∉ others x.section? := fun h => (hothers _ _ h).ne_setting x rfl rfl
  simp only [writtenAt, mem_value?_iff, List.mem_append, hother, or_false, List.mem_map, List.mem_filter,
    Bool.and_eq_true, decide_eq_true_eq, Prod.mk.injEq, Value.text.injEq]
  constructor
  · rintro ⟨y, ⟨-, hplace, hgiven⟩, hkey, rfl⟩
    obtain rfl := Setting.key_inj hplace hkey
    exact ⟨hgiven, rfl⟩
  · rintro ⟨hgiven, rfl⟩
    exact ⟨x, ⟨x.mem_all, rfl, hgiven⟩, rfl, rfl⟩

theorem mem_written_section_iff {name : Section} {v : Value} :
    (.text name.key, v) ∈ written s given others ↔ v ∈ (writtenIn s given others name).map .mapping := by
  have hplain : (.text name.key, v) ∉ writtenAt s given others none := by
    intro h
    rcases List.mem_append.mp h with h | h
    · obtain ⟨x, hx, heq⟩ := List.mem_map.mp h
      have hplace : x.section? = none ∧ given x = true := by simpa using (List.mem_filter.mp hx).2
      exact Setting.key_ne_section hplace.1 name (Value.text.inj (Prod.mk.inj heq).1)
    · exact (hothers _ _ h).ne_section rfl name rfl
  simp only [written, List.mem_append, hplain, or_false, List.mem_filterMap, Option.map_eq_some_iff, Prod.mk.injEq,
    Value.text.injEq, Option.mem_def]
  constructor
  · rintro ⟨name', -, es, hes, hkey, rfl⟩
    obtain rfl := Section.key_inj hkey
    exact ⟨es, hes, rfl⟩
  · rintro ⟨es, hes, rfl⟩
    exact ⟨name, name.mem_all, es, hes, rfl, rfl⟩

/-- A document that gives any choice of the settings, together with other entries. -/
def Document.write : Document s given where
  entries := written s given others
  sections := writtenIn s given others
  holds_section _ _ := mem_written_section_iff s given hothers
  holds_setting x v := by
    rw [← mem_writtenAt_iff s given hothers]
    cases hx : x.section? with
    | none => exact mem_written_iff s given others hx
    | some name => rw [entriesAt, getD_writtenIn]

end Writing

/-! ## Reading -/

/-- What is found of a setting. -/
def lookup? (entries : List (Value × Value)) (x : Setting) : Option Value :=
  match x.section? with
  | none => Value.entry? entries x.key
  | some name => Value.entry? (section? entries name.key) x.key

/-- **Only what is found of the settings counts.** -/
theorem ofEntries_eq_ok {entries : List (Value × Value)} {s : Settings}
    (hstate : limitOf ({} : Settings).maxStateHooks (lookup? entries .maxStateHooks) = .ok s.maxStateHooks)
    (heffect : limitOf ({} : Settings).maxEffectHooks (lookup? entries .maxEffectHooks) = .ok s.maxEffectHooks)
    (hsuffix : textOf ({} : Settings).ruleSuffix (lookup? entries .ruleSuffix) = .ok s.ruleSuffix)
    (hfolders : textsOf ({} : Settings).ignoredFolders (lookup? entries .ignoredFolders) = .ok s.ignoredFolders)
    (hmarker : textOf ({} : Settings).utilitiesMarker (lookup? entries .utilitiesMarker) = .ok s.utilitiesMarker)
    (hexemptions :
      textsOf ({} : Settings).logicExemptions (lookup? entries .logicExemptions) = .ok s.logicExemptions) :
    ofEntries entries = .ok s := by
  simp only [lookup?, Setting.section?, Setting.key, Section.key] at hstate heffect hsuffix hfolders hmarker hexemptions
  simp only [ofEntries, hstate, heffect, hsuffix, hfolders, hmarker, hexemptions]
  rfl

theorem Document.lookup?_eq {s : Settings} {given : Setting → Bool} (d : Document s given) (x : Setting) :
    lookup? d.entries x = s.value? given x := by
  rw [lookup?, ← d.entry?_eq]
  cases x.section? with
  | none => rfl
  | some name => exact congrArg (Value.entry? · x.key) (d.section?_eq name)

section Given

variable {given : Setting → Bool} {x : Setting}

theorem mapM_displayOf_texts (texts : List String) : (texts.map Value.text).mapM displayOf = .ok texts := by
  induction texts with
  | nil => rfl
  | cons t texts ih =>
    rw [List.map_cons, List.mapM_cons, ih]
    rfl

theorem textOf_given (default t : String) :
    textOf default (if given x then some (.text t) else none) = .ok (if given x then t else default) := by
  cases given x <;> rfl

theorem textsOf_given (default texts : List String) :
    textsOf default (if given x then some (.list (texts.map .text)) else none) =
      .ok (if given x then texts else default) := by
  cases given x with
  | false => rfl
  | true => exact mapM_displayOf_texts texts

theorem limitOf_given (default n : Int) :
    limitOf default (if given x then some (.int n) else none) = .ok (if given x then n else default) := by
  cases given x <;> rfl

/-- **A document gives the settings that stand in it**, and the defaults for the others. -/
theorem ofEntries_document {s : Settings} (d : Document s given) : ofEntries d.entries = .ok (s.chosen given) := by
  apply ofEntries_eq_ok
  · rw [d.lookup?_eq]
    exact limitOf_given _ _
  · rw [d.lookup?_eq]
    exact limitOf_given _ _
  · rw [d.lookup?_eq]
    exact textOf_given _ _
  · rw [d.lookup?_eq]
    exact textsOf_given _ _
  · rw [d.lookup?_eq]
    exact textOf_given _ _
  · rw [d.lookup?_eq]
    exact textsOf_given _ _

end Given

/-- Two keys at places where they mean nothing. -/
def strayKeys : Option Section → List (Value × Value)
  | none => [(.text "location", .text "/lib/")]
  | some .businessLogic => [(.text "rule_suffix", .null)]
  | some .unusedExports => []

theorem isOther_strayKeys : ∀ place, ∀ e ∈ strayKeys place, IsOther place e.1 := by
  have hkey : ∀ {name key : String}, name ≠ key → Value.text name ≠ .text key := fun h heq => h (Value.text.inj heq)
  intro place e he
  rcases place with _ | _ | _ <;> simp only [strayKeys, List.mem_singleton, List.not_mem_nil] at he
  · subst he
    refine ⟨fun x hx => hkey ?_, fun _ name => hkey ?_⟩
    · revert hx
      cases x <;> decide
    · cases name <;> decide
  · subst he
    refine ⟨fun x hx => hkey ?_, fun h => by cases h⟩
    revert hx
    cases x <;> decide

/-- Keys of settings at other places are not in the way. -/
theorem ofEntries_document_strayKeys :
    ofEntries
      [(.text "business_logic", .mapping [(.text "max_state_hooks", .int 8), (.text "rule_suffix", .null)]),
        (.text "ignore_dirs", .list [.text "dist"]), (.text "location", .text "/lib/")] =
      .ok { ignoredFolders := ["dist"], maxStateHooks := 8 } :=
  ofEntries_document (.write { ignoredFolders := ["dist"], maxStateHooks := 8 }
    (fun x => x = .ignoredFolders || x = .maxStateHooks) isOther_strayKeys)

end Settings

end Conformance
