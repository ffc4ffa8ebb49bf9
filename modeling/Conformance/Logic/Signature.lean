import Conformance.Logic.Naming
import Conformance.Text.Line
import Conformance.Text.Occurrence
import Conformance.Violation

/-!
# Signatures of business logic

A signature is a pattern of code that a component which only renders should not hold. It may excuse a match by what the
match is and by the code around it, so that submit handlers and the like are not reported.
-/

namespace Conformance.Logic

open Pattern

structure Signature where
  name : String
  pattern : Pattern
  message : String
  severity : Severity
  /-- Whether a match in a context is let pass. -/
  excuse? : Option (Match → List Char → Bool) := none

/-- The names of handlers that may do what others may not. -/
def submitHandlers : List String :=
  ["handleSubmit", "onSubmit", "handleSave", "handleLogin", "handleSignup", "handleBudgetUpdate"]

/-- The context names a submit handler. -/
def inSubmitHandler (_ : Match) (context : List Char) : Bool :=
  submitHandlers.any fun name => Text.occurs name.toList context

/-- The context names a submit handler, or speaks of handling and of submitting. -/
def inAnySubmitHandler (m : Match) (context : List Char) : Bool :=
  inSubmitHandler m context || Text.occurs "handle".toList context && Text.occurs "submit".toList context

/-- The number of lines that a match extends over. -/
def lineSpan (m : Match) : Nat := Text.lineFeeds m.whole.text + 1

/-- A short match near something that is submitted. -/
def isShortSubmit (m : Match) (context : List Char) : Bool :=
  lineSpan m < 5 && Text.occurs "submit".toList context

/-- A match on one or two lines. -/
def isShort (m : Match) (_ : List Char) : Bool := lineSpan m < 3

/-- A function whose name is one of user-interface code. -/
def isInterfaceFunction (m : Match) (_ : List Char) : Bool := isInterfaceCode m.markedText

/-- The fewest characters of a long function body. -/
def longBody : Nat := 50

/-- A character of a function body before it ends or returns. -/
def isBodyStep (rest : List Char) : Bool :=
  rest.head?.any (· != '\x7d') && !"return".toList.isPrefixOf rest

namespace Signature

def asyncFunction : Signature where
  name := "async-function"
  pattern := inOrder [text "async", blanks 1, alt (text "function") (char (· == '('))]
  message := "Async operations should be in services or custom hooks"
  severity := .error
  excuse? := some inSubmitHandler

def promiseThen : Signature where
  name := "promise-then"
  pattern := inOrder [text ".then", blanks 0, char (· == '(')]
  message := "Promise handling should be in services or custom hooks"
  severity := .error

def await : Signature where
  name := "await"
  pattern := inOrder [text "await", blanks 1]
  message := "Await operations should be in services or custom hooks"
  severity := .error
  excuse? := some inAnySubmitHandler

def tryCatch : Signature where
  name := "try-catch"
  pattern :=
    inOrder
      [text "try", blanks 0, char (· == '\x7b'), blanks 0, lazily 0 (fun _ => true), char (· == '\x7d'), blanks 0,
       text "catch"]
  message := "Complex error handling should be in services or custom hooks"
  severity := .warning
  excuse? := some isShortSubmit

def fetch : Signature where
  name := "fetch"
  pattern := inOrder [text "fetch", blanks 0, char (· == '(')]
  message := "API calls must not be in presentation components"
  severity := .error

def storage : Signature where
  name := "storage"
  pattern := alt (text "localStorage.") (text "sessionStorage.")
  message := "Storage operations must not be in presentation components"
  severity := .error

def reduceTransform : Signature where
  name := "reduce-transform"
  pattern :=
    inOrder
      [text ".reduce", blanks 0, char (· == '('), blanks 0, char (· == '('), greedily 0 (· != ')'), char (· == ')'),
       blanks 0, text "=>", blanks 0, char (· == '\x7b'), lazily 0 (fun _ => true), char (· == '\x7d'), blanks 0,
       char (· == ',')]
  message := "Complex data transformations should be in utilities or services"
  severity := .warning
  excuse? := some isShort

def longFunction : Signature where
  name := "long-function"
  pattern :=
    inOrder
      [text "function", blanks 1, mark (greedily 1 Text.isWord), blanks 0, char (· == '('), greedily 0 (· != ')'),
       char (· == ')'), blanks 0, char (· == '\x7b'), blanks 0, run true longBody isBodyStep]
  message := "Complex functions should be extracted to hooks or services"
  severity := .warning
  excuse? := some isInterfaceFunction

def currencyConversion : Signature where
  name := "currency-conversion"
  pattern := pair ["convert", "exchange", "transform"] ["Currency", "Amount", "Rate"]
  message := "Currency business logic should be in services"
  severity := .error

def financialCalculation : Signature where
  name := "financial-calculation"
  pattern := pair ["calculate", "compute"] ["Tax", "Total", "Discount", "Price", "Cost", "Budget"]
  message := "Financial calculations should be in utilities or services"
  severity := .error

def domainValidation : Signature where
  name := "domain-validation"
  pattern := pair ["validate", "verify"] ["Budget", "Expense", "Transaction", "Approval"]
  message := "Domain validation should be in services"
  severity := .error

def documentProcessing : Signature where
  name := "document-processing"
  pattern := pair ["process", "parse", "extract"] ["Receipt", "Invoice", "Document", "Data"]
  message := "Document processing should be in services"
  severity := .error

def reportGeneration : Signature where
  name := "report-generation"
  pattern := pair ["generate", "create"] ["Report", "Export", "PDF", "CSV"]
  message := "Report generation should be in services"
  severity := .error

/-- All signatures, in the order in which their findings are reported. -/
def catalogue : List Signature :=
  [asyncFunction, promiseThen, await, tryCatch, fetch, storage, reduceTransform, longFunction, currencyConversion,
   financialCalculation, domainValidation, documentProcessing, reportGeneration]

end Signature

end Conformance.Logic
