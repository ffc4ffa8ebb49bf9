import Conformance.Settings.Basic
import Conformance.Value.Display
import Conformance.Value.Integer

/-!
# Settings from a document

Every setting has a key of its own, two of them in the section `unused_exports` and three in `business_logic`. A setting
without a key keeps its default, as does a list that is given as neither a text nor a list. Wrong can be the limits on
hooks and, after them, values that have no display.
-/

namespace Conformance.Settings

/-- What is wrong with the entries of a document. -/
inductive EntryError where
  /-- A limit on hooks is no integer. -/
  | limit (cause : Value.NoInteger)
  /-- A value with an integer of too many digits should be a text. -/
  | noDisplay
deriving DecidableEq, Repr

/-- The display of a value. -/
def displayOf (v : Value) : Except EntryError String :=
  if v.isShowable then .ok v.display else .error .noDisplay

/-- A list of texts: one text alone, or the display of each item. -/
def textsOf (default : List String) : Option Value → Except EntryError (List String)
  | some (.text s) => .ok [s]
  | some (.brokenText points) => .ok [(Value.brokenText points).display]
  | some (.list items) => items.mapM displayOf
  | _ => .ok default

/-- A text: the display of the value. -/
def textOf (default : String) : Option Value → Except EntryError String
  | none => .ok default
  | some v => displayOf v

/-- A limit: the integer that the value counts as. -/
def limitOf (default : Int) : Option Value → Except EntryError Int
  | none => .ok default
  | some v => v.toInteger.mapError .limit

/-- The entries of a section; none if the section is no mapping. -/
def section? (entries : List (Value × Value)) (name : String) : List (Value × Value) :=
  ((Value.entry? entries name).map (·.entries)).getD []

/-- The settings that the entries of a document give. -/
def ofEntries (entries : List (Value × Value)) : Except EntryError Settings := do
  let default : Settings := {}
  let unused := section? entries "unused_exports"
  let logic := section? entries "business_logic"
  let maxStateHooks ← limitOf default.maxStateHooks (Value.entry? logic "max_state_hooks")
  let maxEffectHooks ← limitOf default.maxEffectHooks (Value.entry? logic "max_effect_hooks")
  let ruleSuffix ← textOf default.ruleSuffix (Value.entry? entries "rule_suffix")
  let ignoredFolders ← textsOf default.ignoredFolders (Value.entry? entries "ignore_dirs")
  let utilitiesMarker ← textOf default.utilitiesMarker (Value.entry? unused "location")
  let logicExemptions ← textsOf default.logicExemptions (Value.entry? logic "skip")
  return { ruleSuffix, ignoredFolders, utilitiesMarker, logicExemptions, maxStateHooks, maxEffectHooks }

end Conformance.Settings
