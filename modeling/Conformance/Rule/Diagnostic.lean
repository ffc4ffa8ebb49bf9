import Conformance.Text.Line
import Conformance.Text.Quoted

/-!
# Problems in the text of a rule

Reading a rule never fails. What cannot be read is skipped and reported as a problem with its position.
-/

namespace Conformance

/-- What is wrong at some place of a rule text. -/
inductive Problem where
  | strayCharacter (c : Char)
  | unclosedString
  | unclosedComment
  | moduleNameMissing
  /-- The word before a colon that no string follows. -/
  | stringMissing (key : String)
  | allowedImportMissing
  | denialTargetMissing
  /-- `imports` or `exports` without a list after it. -/
  | patternListMissing (target : String)
  | strayPattern (token : String)
  | unclosedPatternList
  | unsupportedFileLimit (target : String)
  | lineLimitMissing
  | lineLimitTooLong
  | unsupportedDenial (target : String)
  | unknownOperation (target : String)
  | invalidBytes
deriving DecidableEq, Repr

namespace Problem

/-- The wording of a problem. -/
def message : Problem → String
  | strayCharacter c => "unexpected character " ++ Text.quoted (String.singleton c)
  | unclosedString => "unterminated string"
  | unclosedComment => "unterminated block comment"
  | moduleNameMissing => "expected module name after 'module'"
  | stringMissing key => "expected string after '" ++ key ++ ":'"
  | allowedImportMissing => "expected import pattern string after 'allow'"
  | denialTargetMissing => "expected target after 'deny'"
  | patternListMissing target => "expected '[' after 'deny " ++ target ++ "'"
  | strayPattern token => "unexpected " ++ Text.quoted token ++ " in pattern list"
  | unclosedPatternList => "unterminated pattern list"
  | unsupportedFileLimit target => "unsupported file constraint '" ++ target ++ "'"
  | lineLimitMissing => "expected 'file.lines > <number>'"
  | lineLimitTooLong => "invalid line limit"
  | unsupportedDenial target => "unsupported denial '" ++ target ++ "'"
  | unknownOperation target => "unknown operation '" ++ target ++ "'"
  | invalidBytes => "invalid UTF-8 byte sequence replaced"

end Problem

/-- A problem and where it stands. -/
structure Diagnostic where
  position : Text.Position
  problem : Problem
deriving DecidableEq, Repr

namespace Diagnostic

def message (d : Diagnostic) : String := d.problem.message

/-- A diagnostic as one line, its position first. -/
def text (d : Diagnostic) : String :=
  toString d.position.line ++ ":" ++ toString d.position.column ++ ": " ++ d.message

/-- The order of positions; sorting by it keeps the order of problems at one position. -/
def le (a b : Diagnostic) : Bool := a.position.atOrBefore b.position

end Diagnostic

end Conformance
