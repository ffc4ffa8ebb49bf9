import Conformance.Logic.Signature

/-!
# Findings of business logic

Every match of a signature is a finding, unless the signature excuses it, or the signature only warns and the code
around the match is user-interface code.
-/

namespace Conformance.Logic

/-- How many characters before and after a match belong to its context. -/
def contextRadius : Nat := 50

/-- How many characters of a match are shown. -/
def excerptLength : Nat := 50

/-- A match of a signature that is reported. -/
structure Finding where
  signature : Signature
  line : Nat
  excerpt : String

/-- What is reported of a finding. -/
def Finding.message (f : Finding) : String :=
  f.signature.message ++ ". Found: \"" ++ f.excerpt ++ "...\""

/-- The code around a match on one line, without white space at its ends. -/
def context (content : List Char) (m : Match) : List Char :=
  let start := m.whole.start - contextRadius
  let window := (content.drop start).take (m.stop + contextRadius - start)
  Text.trim (window.map fun c => if c = '\n' then ' ' else c)

namespace Signature

/-- Whether a match in a context is not reported. -/
def passes (s : Signature) (m : Match) (around : List Char) : Bool :=
  (s.excuse?.map fun excuse => excuse m around).getD false ||
    s.severity = .warning && isInterfaceCode around

/-- The findings of one signature in a text. -/
def findings (s : Signature) (content : List Char) : List Finding :=
  ((s.pattern.scan content).filter fun m => !s.passes m (context content m)).map fun m =>
    ⟨s, Text.lineAt content m.whole.start, String.ofList (m.whole.text.take excerptLength)⟩

end Signature

/-- The findings of several signatures in a text, signature by signature. -/
def findings (signatures : List Signature) (content : List Char) : List Finding :=
  signatures.flatMap (·.findings content)

end Conformance.Logic
