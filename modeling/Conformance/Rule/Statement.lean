import Conformance.Rule.Basic
import Conformance.Rule.Token
import Conformance.Text.DecimalDigit

/-!
# The statements of a rule text

Statements are recognised anywhere among the tokens: every token is looked at together with the tokens that follow it,
whatever stands before. A malformed statement gives a problem and, where a part of it can be read, that part.

```
module Name {
location: "src/components/Widget.tsx"
type: "presentation"
@ "Pure presentation component"
allow "react"
deny imports ["../stores/*", "../services/*"]
deny exports ["_*"]
deny file.lines > 200
deny io.console.*
```
-/

namespace Conformance

inductive Statement where
  | moduleName (name : String)
  | location (path : String)
  | allowImport (pattern : String)
  | denyImports (patterns : List String)
  | denyExports (patterns : List String)
  | denyOperation (target : String)
  | limitLines (most : Nat)
  | markPresentation
deriving DecidableEq, Repr

namespace Statement

/-- What a token and its successors say: at most one statement, and the problems in it. -/
structure Reading where
  statement? : Option Statement := none
  problems : List Diagnostic := []
deriving DecidableEq, Repr

/-- A statement without problems. -/
def Reading.gives (s : Statement) : Reading := { statement? := some s }

/-- A problem at a token, and no statement. -/
def Reading.fails (t : Token) (p : Problem) : Reading := { problems := [⟨t.position, p⟩] }

/-- The annotations that mark a presentation component. -/
def presentationAnnotations : List String :=
  ["Pure presentation component", "Presentation component"]

/-- The longest number that a line limit may have, in digits. -/
def longestLimit : Nat := 18

/-- After `module`: a name and an opening brace. -/
def readModule (key : Token) (after : List Token) : Reading :=
  match after with
  | name :: following =>
    if name.kind = .ident then
      if following.head?.any (·.isPunct "\x7b") then .gives (.moduleName name.value) else {}
    else .fails key .moduleNameMissing
  | [] => .fails key .moduleNameMissing

/-- After `location` or `type`: nothing, unless a colon follows, and then a string. -/
def readSetting (key : Token) (after : List Token) (use : String → Option Statement) : Reading :=
  match after with
  | colon :: following =>
    if colon.isPunct ":" then
      match following with
      | value :: _ =>
        if value.kind = .string then { statement? := use value.value }
        else .fails colon (.stringMissing key.value)
      | [] => .fails colon (.stringMissing key.value)
    else {}
  | [] => {}

/-- After `allow`: a string. -/
def readAllow (key : Token) (after : List Token) : Reading :=
  match after with
  | pattern :: _ =>
    if pattern.kind = .string then .gives (.allowImport pattern.value) else .fails key .allowedImportMissing
  | [] => .fails key .allowedImportMissing

/-- After `@`: an annotation. -/
def readAt (after : List Token) : Reading :=
  match after with
  | note :: _ =>
    if note.kind = .string && presentationAnnotations.contains note.value then .gives .markPresentation else {}
  | [] => {}

/-- The strings of a pattern list after its opening bracket, up to the first token that is neither a string nor a
comma, and the problem if that is not the closing bracket. -/
def readPatterns (opening : Token) : List Token → List String × List Diagnostic
  | [] => ([], [⟨opening.position, .unclosedPatternList⟩])
  | t :: ts =>
    if t.isPunct "]" then ([], [])
    else if t.kind = .string then
      let (values, problems) := readPatterns opening ts
      (t.value :: values, problems)
    else if t.isPunct "," then readPatterns opening ts
    else ([], [⟨t.position, .strayPattern t.value⟩])

/-- After `deny imports` or `deny exports`: a pattern list in brackets. -/
def readPatternList (target : Token) (after : List Token) (use : List String → Statement) : Reading :=
  match after with
  | opening :: following =>
    if opening.isPunct "[" then
      let (values, problems) := readPatterns opening following
      { statement? := some (use values), problems }
    else .fails target (.patternListMissing target.value)
  | [] => .fails target (.patternListMissing target.value)

/-- After `deny file.…`: only a limit on lines is known. -/
def readFileLimit (target : Token) (after : List Token) : Reading :=
  if target.value = "file.lines" then
    match after with
    | op :: limit :: _ =>
      if op.isPunct ">" && limit.kind = .number then
        if limit.value.length ≤ longestLimit then .gives (.limitLines (Text.decimalValue limit.value.toList))
        else .fails limit .lineLimitTooLong
      else .fails target .lineLimitMissing
    | _ => .fails target .lineLimitMissing
  else .fails target (.unsupportedFileLimit target.value)

/-- Whether a target names imports, exports or files in a way that is not supported. -/
def isReserved (target : String) : Bool :=
  Text.occursIn "imports" target || Text.occursIn "exports" target || Text.occursIn "file." target

/-- After `deny`: a target, and what that target requires. -/
def readDeny (key : Token) (after : List Token) : Reading :=
  match after with
  | target :: following =>
    if target.kind = .ident then
      if target.value = "imports" then readPatternList target following .denyImports
      else if target.value = "exports" then readPatternList target following .denyExports
      else if "file.".toList.isPrefixOf target.value.toList then readFileLimit target following
      else if isReserved target.value then .fails target (.unsupportedDenial target.value)
      else
        { statement? := some (.denyOperation target.value)
          problems :=
            if (Operation.ofTarget? target.value).isSome then []
            else [⟨target.position, .unknownOperation target.value⟩] }
    else .fails key .denialTargetMissing
  | [] => .fails key .denialTargetMissing

/-- What the token `t` says when the tokens `after` follow it. -/
def read (t : Token) (after : List Token) : Reading :=
  if t.isIdent "module" then readModule t after
  else if t.isIdent "location" then readSetting t after (some ∘ .location)
  else if t.isIdent "type" then
    readSetting t after fun value => if value = Role.presentation.name then some .markPresentation else none
  else if t.isIdent "allow" then readAllow t after
  else if t.isIdent "deny" then readDeny t after
  else if t.isPunct "@" then readAt after
  else {}

/-- What every token of a list says. -/
def readings : List Token → List Reading
  | [] => []
  | t :: ts => read t ts :: readings ts

end Statement

end Conformance
