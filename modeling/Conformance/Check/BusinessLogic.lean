import Conformance.Check.Subject
import Conformance.Log
import Conformance.Logic.Finding

/-!
# Business logic in components

Components are checked by the part they play. Containers need an error boundary and have no effect hooks. Components
that only render are searched for business logic and for too many hooks, unless they are pages, the root of the program
or declared as containers in their text.
-/

namespace Conformance

open Pattern

/-- How a component is treated. -/
structure ComponentClass where
  /-- It only renders. -/
  presentation : Bool
  /-- It is the root of the program, a page or a declared container. -/
  rootOrContainer : Bool
deriving DecidableEq, Repr

/-- Whether the component is searched for business logic. -/
def ComponentClass.scanned (c : ComponentClass) : Bool := c.presentation && !c.rootOrContainer

namespace Subject

/-- Whether the rule keeps the component away from stores and services, and the text names neither. -/
def isKeptFromState (s : Subject) : Bool :=
  !s.mentions "useStore" && !s.mentions "Service" &&
    s.rule.deniedImports.any fun p => Text.occursIn "stores" p || Text.occursIn "services" p

/-- The class of a component, from its rule and its text. -/
def componentClass (s : Subject) : ComponentClass where
  presentation :=
    s.rule.role = .presentation || s.mentions "Pure presentation component" ||
      s.mentions "type: \"presentation\"" || s.isKeptFromState
  rootOrContainer :=
    s.rule.moduleName = "App" || Text.occursIn "App.tsx" s.rule.location ||
      Text.occursIn "Page.tsx" s.rule.location || s.mentions "type: \"container\""

/-- Whether the settings exempt the file from the search. -/
def isExempt (s : Subject) : Bool :=
  s.settings.logicExemptions.any fun marker => Text.occursIn marker s.file

end Subject

namespace Check

/-- Containers implement error boundaries and use no effect hooks. -/
def containerStructure : Check := fun s =>
  (if !s.mentions "componentDidCatch" && !s.mentions "ErrorBoundary" then
    [s.fault .pattern "Container components must implement error boundaries"]
  else []) ++
  if s.mentions "useEffect" then [s.fault .pattern "Container components should not use useEffect"] else []

/-- A use of a state hook, with or without a type argument. -/
def stateHook : Pattern :=
  inOrder
    [text "useState", blanks 0,
     optional (inOrder [char (· == '<'), greedily 1 (· != '>'), char (· == '>')]), blanks 0, char (· == '(')]

/-- A use of an effect hook. -/
def effectHook : Pattern :=
  inOrder [text "useEffect", blanks 0, char (· == '(')]

/-- There are no more hooks of either kind than the settings allow. -/
def hookComplexity : Check := fun s =>
  let states := (stateHook.scan s.text).length
  let effects := (effectHook.scan s.text).length
  (if s.settings.maxStateHooks < states then
    [s.fault .businessLogic
      ("Too many state hooks (" ++ toString states ++
        "). Consider extracting complex state logic to a custom hook") .warning]
  else []) ++
  if s.settings.maxEffectHooks < effects then
    [s.fault .businessLogic
      ("Multiple useEffect hooks (" ++ toString effects ++
        ") suggest business logic. Consider extracting to custom hooks") .warning]
  else []

/-- The findings of the whole catalogue. -/
def logicFindings : Check := fun s =>
  (Logic.findings Logic.Signature.catalogue s.text).map fun f =>
    { s.fault .businessLogic f.message f.signature.severity with line := some f.line }

/-- All checks of a component; other files pass. -/
def businessLogic : Check := fun s =>
  if !s.rule.isComponent || s.isExempt then []
  else
    (if s.rule.role = .container then containerStructure s else []) ++
    if s.componentClass.scanned then logicFindings s ++ hookComplexity s else []

/-- Why a component is not searched for business logic, if it is not. -/
def businessLogicLog (s : Subject) : List LogRecord :=
  let say (message : String) : List LogRecord := [⟨.debug, .businessLogic, message⟩]
  let word (b : Bool) : String := if b then "True" else "False"
  let kind := s.componentClass
  if !s.rule.isComponent then []
  else if s.isExempt then say ("Skipping business-logic checks for " ++ s.file)
  else if kind.scanned then []
  else
    say (s.file ++ " not scanned (presentation=" ++ word kind.presentation ++ ", root_or_container=" ++
      word kind.rootOrContainer ++ ")")

end Check

end Conformance
