import Conformance.Pattern.Scan
import Conformance.Text.DecimalDigit

/-!
# Names of user-interface code

Some families of names show that a piece of code is about the user interface itself: validating form fields, formatting
for display, toggling visibility, styling, handling events. Upper and lower case do not matter.
-/

namespace Conformance.Logic

open Pattern

/-- A word in any case from each list, with any word characters between the two. -/
def compound (first second : List String) : Pattern :=
  inOrder [oneOf (first.map anyCase), greedily 0 Text.isWord, oneOf (second.map anyCase)]

/-- A word in any case from each list, one right after the other. -/
def pair (first second : List String) : Pattern :=
  inOrder [oneOf (first.map anyCase), oneOf (second.map anyCase)]

/-- The names of form validation. -/
def validationNames : Pattern :=
  compound ["validate"] ["Email", "Phone", "Password", "Field", "Input", "Form"]

/-- The names of formatting, of what is entered or shown. -/
def formattingNames : Pattern :=
  compound ["format"] ["Phone", "Date", "Currency", "Input", "Display"]

/-- The names of visibility and other states of the interface. -/
def stateNames : Pattern :=
  compound ["is", "has", "show", "hide", "toggle"] ["Open", "Visible", "Active", "Disabled", "Loading", "Submitting"]

/-- The names of shortening for display. -/
def shorteningNames : Pattern :=
  oneOf (["truncate", "ellipsis", "excerpt", "preview"].map anyCase)

/-- The names of styling. -/
def stylingNames : Pattern :=
  oneOf (["className", "cssClass", "style", "variant"].map anyCase)

/-- The names of event handlers. -/
def handlerNames : Pattern :=
  pair ["handle"] ["Click", "Change", "Submit", "Focus", "Blur", "Key"]

/-- The comparison of a length with a number. -/
def lengthTest : Pattern :=
  inOrder
    [char (· == '.'), blanks 0, text "length", blanks 0, char fun c => c == '<' || c == '>',
     optional (char (· == '=')), blanks 0, greedily 1 Text.isDecimalDigit]

/-- The patterns of user-interface code. -/
def interfacePatterns : List Pattern :=
  [validationNames, formattingNames, stateNames, shorteningNames, stylingNames, handlerNames, lengthTest]

/-- Whether a piece of code is about the user interface. -/
def isInterfaceCode (snippet : List Char) : Bool :=
  !snippet.isEmpty && interfacePatterns.any (·.occursIn snippet)

end Conformance.Logic
