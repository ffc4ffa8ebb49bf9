import Conformance.Yaml.ScalarText

/-!
# The tokens of a YAML text

Indentation is turned into tokens that open and close block collections. Whether a scalar is a key shows only at the
colon after it, so possible keys are remembered, one for each level of flow collections, and a key token is put in
front of one that turns out to be a key.

Read are block and flow collections, plain and quoted scalars, aliases, comments and document marks. Anything else, such
as anchors, tags, block scalars and explicit keys, makes a text unreadable. A failure ends the tokens: those before it
are what a reader still sees of the text.
-/

namespace Conformance.Yaml

inductive Token where
  | documentStart
  | documentEnd
  | blockSequence
  | blockMapping
  | blockEnd
  | flowSequence
  | flowSequenceEnd
  | flowMapping
  | flowMappingEnd
  /-- A comma between the items of a flow collection. -/
  | flowEntry
  /-- The dash of an item in a block sequence. -/
  | blockEntry
  | key
  | value
  | plain (text : String)
  /-- A scalar in quotes, by its code points. -/
  | quoted (points : List Nat)
  /-- The name of another node. As no node can be given a name, it stands for none. -/
  | reference
  /-- No token can be read here. -/
  | failure (e : Failure)
deriving DecidableEq, Repr

/-- A scalar or collection that may turn out to be a key. -/
structure PossibleKey where
  /-- How many tokens stand before it. -/
  tokensBefore : Nat
  /-- Nothing else than a key may stand there. -/
  required : Bool
  place : Cursor
deriving Repr

/-- The state of reading tokens. -/
structure Scanner where
  place : Cursor
  /-- The tokens so far. -/
  tokens : List Token := []
  /-- The possible key of each open flow collection, the innermost first, and of the block context last. -/
  possibleKeys : List (Option PossibleKey) := [none]
  /-- The columns of the open block collections, the innermost first. -/
  indents : List Int := []
  /-- Whether a key may start here. -/
  keyAllowed : Bool := true
deriving Repr

namespace Scanner

/-- The longest key, in characters. -/
def longestKey : Nat := 1024

def inFlow (s : Scanner) : Bool := 1 < s.possibleKeys.length

/-- The column of the innermost block collection; `-1` if there is none. -/
def indent (s : Scanner) : Int := s.indents.head?.getD (-1)

def emit (s : Scanner) (ts : List Token) : Scanner := { s with tokens := s.tokens ++ ts }

/-- The possible key of the current level. -/
def possibleKey? (s : Scanner) : Option PossibleKey := s.possibleKeys.head?.join

/-- Gives up the possible key of the current level. -/
def dropKey (s : Scanner) : Except Failure Scanner :=
  if s.possibleKey?.any (·.required) then .error .malformed
  else .ok { s with possibleKeys := none :: s.possibleKeys.drop 1 }

/-- Whether a possible key stands on an earlier line or too far back. -/
def isStale (s : Scanner) (k : PossibleKey) : Bool :=
  k.place.line != s.place.line || longestKey < s.place.index - k.place.index

/-- Gives up the possible keys that are stale. -/
def dropStaleKeys (s : Scanner) : Except Failure Scanner :=
  if s.possibleKeys.any fun k => k.any fun k => s.isStale k && k.required then .error .malformed
  else .ok { s with possibleKeys := s.possibleKeys.map (·.filter fun k => !s.isStale k) }

/-- The tokens in front of which no key can be put any more. -/
def settled (s : Scanner) : List Token :=
  let pending := (s.possibleKeys.filterMap id).filter fun k => !s.isStale k
  s.tokens.take ((pending.map (·.tokensBefore)).foldl min s.tokens.length)

/-- Remembers that what comes next may be a key. -/
def rememberKey (s : Scanner) : Except Failure Scanner :=
  if s.keyAllowed then do
    let s ← s.dropKey
    let k : PossibleKey := ⟨s.tokens.length, !s.inFlow && s.indent == s.place.column, s.place⟩
    return { s with possibleKeys := some k :: s.possibleKeys.drop 1 }
  else return s

/-- Closes the block collections that are indented further than a column. -/
def unwindTo (column : Int) : List Int → List Int × List Token
  | [] => ([], [])
  | i :: is =>
    if column < i then
      let (left, ts) := unwindTo column is
      (left, .blockEnd :: ts)
    else (i :: is, [])

/-- Closes the block collections that the text has left. -/
def unwind (s : Scanner) (column : Int) : Scanner :=
  if s.inFlow then s
  else
    let (left, ts) := unwindTo column s.indents
    { s with indents := left }.emit ts

/-- Opens a block collection at a column, unless one is open there; its token goes behind the first `before`. -/
def openBlock (s : Scanner) (column : Int) (before : Nat) (t : Token) : Scanner :=
  if s.indent < column then
    { s with indents := column :: s.indents, tokens := s.tokens.take before ++ t :: s.tokens.drop before }
  else s

/-- A token of `n` characters. -/
def takeMark (s : Scanner) (n : Nat) (t : Token) : Except Failure Scanner :=
  (s.place.skip n).map fun place => { s with place }.emit [t]

/-- A mark between documents. -/
def documentMark (s : Scanner) (t : Token) : Except Failure Scanner := do
  let s ← (s.unwind (-1)).dropKey
  { s with keyAllowed := false }.takeMark 3 t

/-- The start of a flow collection. -/
def openFlow (s : Scanner) (t : Token) : Except Failure Scanner := do
  let s ← s.rememberKey
  { s with possibleKeys := none :: s.possibleKeys, keyAllowed := true }.takeMark 1 t

/-- The end of a flow collection. -/
def closeFlow (s : Scanner) (t : Token) : Except Failure Scanner := do
  let s ← s.dropKey
  let t ← { s with possibleKeys := s.possibleKeys.drop 1, keyAllowed := false }.takeMark 1 t
  if s.inFlow then return t else throw .malformed

/-- A comma in a flow collection. -/
def comma (s : Scanner) : Except Failure Scanner := do
  let s ← s.dropKey
  { s with keyAllowed := true }.takeMark 1 .flowEntry

/-- The dash of an item. -/
def dash (s : Scanner) : Except Failure Scanner := do
  if !s.inFlow && !s.keyAllowed then throw .malformed
  let s := if s.inFlow then s else s.openBlock s.place.column s.tokens.length .blockSequence
  let s ← s.dropKey
  { s with keyAllowed := true }.takeMark 1 .blockEntry

/-- The colon after a key, or without one. -/
def colon (s : Scanner) : Except Failure Scanner :=
  match s.possibleKey? with
  | some k =>
    let n := k.tokensBefore
    let s := { s with
      possibleKeys := none :: s.possibleKeys.drop 1, tokens := s.tokens.take n ++ Token.key :: s.tokens.drop n }
    let s := if s.inFlow then s else s.openBlock k.place.column n .blockMapping
    { s with keyAllowed := false }.takeMark 1 .value
  | none => do
    if !s.inFlow && !s.keyAllowed then throw .malformed
    let s := if s.inFlow then s else s.openBlock s.place.column s.tokens.length .blockMapping
    let s ← { s with keyAllowed := !s.inFlow }.dropKey
    s.takeMark 1 .value

/-- A scalar in quotes. -/
def quoted (s : Scanner) (double : Bool) : Except Failure Scanner := do
  let s ← s.rememberKey
  let (place, value) ← quotedScalar double (← s.place.skip 1) []
  return { s with place, keyAllowed := false }.emit [.quoted value]

/-- A scalar without quotes. -/
def plain (s : Scanner) : Except Failure Scanner := do
  let s ← s.rememberKey
  let (place, value, broke) ← plainScalar s.inFlow (s.indent + 1) s.place [] [] false
  return { s with place, keyAllowed := broke }.emit [.plain (.ofList value)]

/-- The characters of the name in an alias. -/
def isNameChar (c : Char) : Bool := c.isAlphanum || c == '-' || c == '_'

/-- An alias. Behind its name stands the end of a word or one of a few marks. -/
def reference (s : Scanner) : Except Failure Scanner := do
  let s ← s.rememberKey
  let start ← s.place.skip 1
  let name := start.rest.takeWhile isNameChar
  let place ← start.skip name.length
  let isEnd := endsWord place.rest || place.rest.head?.any fun c => "?:,]\x7d%@`".toList.contains c
  if name.isEmpty || !isEnd then throw .malformed
  return { s with place, keyAllowed := false }.emit [.reference]

/-- Characters that mean something at the start of a token. -/
def isIndicator (c : Char) : Bool := "-?:,[]\x7b\x7d#&*!|>'\"%@`".toList.contains c

/-- Whether a plain scalar starts with `c`. An indicator is looked at together with what follows it. -/
def startsPlain (s : Scanner) (c : Char) : Except Failure Bool := do
  if !(isSpace c || isBreak c || isIndicator c) then return true
  let following := (← s.place.look 2).drop 1
  return !endsWord following && (c = '-' || !s.inFlow && (c = '?' || c = ':'))

/-- Whether `c` is a dash or colon that stands alone. -/
def isLoneMark (s : Scanner) (c : Char) : Except Failure Bool :=
  if c = '-' || c = ':' then (s.place.look 2).map fun cs => endsWord (cs.drop 1) else .ok false

/-- A token that is no mark of a document, for a text that goes on with `c`. -/
def fetchInline (s : Scanner) (c : Char) : Except Failure Scanner := do
  if c = '[' then s.openFlow .flowSequence
  else if c = '\x7b' then s.openFlow .flowMapping
  else if c = ']' then s.closeFlow .flowSequenceEnd
  else if c = '\x7d' then s.closeFlow .flowMappingEnd
  else if c = ',' then s.comma
  else if c = '*' then s.reference
  else if c = '\'' then s.quoted false
  else if c = '"' then s.quoted true
  else if c = ':' && s.inFlow then s.colon
  else if c = '?' && s.inFlow then throw .malformed
  else if ← s.isLoneMark c then if c = '-' then s.dash else s.colon
  else if ← s.startsPlain c then s.plain
  else throw .malformed

/-- The next token, for a text that goes on with `c`. -/
def fetch (s : Scanner) (c : Char) : Except Failure Scanner := do
  if s.place.column = 0 && (c = '-' || c = '.') then
    if ← s.place.isDocumentMark then
      return ← s.documentMark (if c = '-' then .documentStart else .documentEnd)
  s.fetchInline c

/-- The state after the next token, or all tokens if the text ends. -/
def advance (s : Scanner) : Except Failure (Scanner ⊕ List Token) := do
  let s ← s.dropStaleKeys
  let (place, broke) ← s.place.skipGap
  let s := { s with place, keyAllowed := s.keyAllowed || broke && !s.inFlow }
  let s := (← s.dropStaleKeys).unwind place.column
  match place.rest with
  | [] => return .inr (← (s.unwind (-1)).dropKey).tokens
  | c :: _ => return .inl (← s.fetch c)

/-- All tokens from a state on. -/
def finish (s : Scanner) : List Token :=
  match s.advance with
  | .error e => s.settled ++ [.failure e]
  | .ok (.inr ts) => ts
  | .ok (.inl t) => if t.place.rest.length < s.place.rest.length then t.finish else s.settled ++ [.failure .malformed]
termination_by s.place.rest.length

end Scanner

namespace Token

/-- How many collections may be open at once. -/
def mostOpen : Nat := 490

/-- Whether a token opens a collection. -/
def opens (t : Token) : Bool := [blockSequence, blockMapping, flowSequence, flowMapping].contains t

/-- Whether a token closes a collection. -/
def closes (t : Token) : Bool := [blockEnd, flowSequenceEnd, flowMappingEnd].contains t

/-- Tokens, up to the first that opens a collection too many; `n` collections are open before. -/
def limitOpen (n : Nat) : List Token → List Token
  | [] => []
  | t :: ts =>
    if t.opens then if n < mostOpen then t :: limitOpen (n + 1) ts else [failure .tooDeep]
    else t :: limitOpen (if t.closes then n - 1 else n) ts

end Token

/-- The tokens of a text. A byte-order mark at its start says nothing. -/
def tokens (text : Source) : List Token :=
  let start : Cursor := { rest := text.readable, broken? := text.broken? }
  Token.limitOpen 0
    (Scanner.finish { place := if text.readable.head? = some '\ufeff' then start.next else start })

end Conformance.Yaml
