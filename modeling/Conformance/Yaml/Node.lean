import Conformance.Yaml.Token

/-!
# The nodes of a YAML text

A text holds at most one document: a scalar, a sequence or a mapping. What is left out, such as the value behind a colon
at the end of a line, is an empty plain scalar. A reader fails at the first token that cannot stand where it does.
-/

namespace Conformance.Yaml

inductive Node where
  | plain (text : String)
  /-- A scalar in quotes, by its code points. -/
  | quoted (points : List Nat)
  | sequence (items : List Node)
  | mapping (entries : List (Node × Node))
deriving Inhabited

namespace Node

/-- What stands for a node that is left out. -/
def absent : Node := plain ""

/-- A result and the tokens that follow it. -/
abbrev Reader (α : Type) := List Token → Except Failure (α × List Token)

/-- The failure at tokens that cannot stand here. -/
def failureAt : List Token → Failure
  | .failure e :: _ => e
  | _ => .malformed

/-- Whether the next token is one of these, or the text ends. -/
def isNext (ts : List Token) (stops : List Token) : Bool :=
  ts.head?.any stops.contains

mutual

/-- A node. In a block context it may be a block collection; as the value of a key it may be a sequence that is not
indented. The number bounds the depth of the recursion and its steps. -/
def node (block bare : Bool) : Nat → Reader Node
  | 0, _ => .error .malformed
  | fuel + 1, ts =>
    match ts with
    | .plain text :: ts => .ok (plain text, ts)
    | .quoted points :: ts => .ok (quoted points, ts)
    | .flowSequence :: ts => (flowItems true fuel ts).map fun (items, ts) => (sequence items, ts)
    | .flowMapping :: ts => (flowEntries true fuel ts).map fun (entries, ts) => (mapping entries, ts)
    | .blockSequence :: ts =>
      if block then (blockItems fuel ts).map fun (items, ts) => (sequence items, ts) else .error .malformed
    | .blockMapping :: ts =>
      if block then (blockEntries fuel ts).map fun (entries, ts) => (mapping entries, ts) else .error .malformed
    | .blockEntry :: _ =>
      if bare then (bareItems fuel ts).map fun (items, ts) => (sequence items, ts) else .error .malformed
    | ts => .error (failureAt ts)

/-- A node, or nothing before one of the tokens. -/
def nodeUnless (stops : List Token) (block bare : Bool) : Nat → Reader Node
  | 0, _ => .error .malformed
  | fuel + 1, ts => if isNext ts stops then .ok (absent, ts) else node block bare fuel ts

/-- The items of an indented block sequence. -/
def blockItems : Nat → Reader (List Node)
  | 0, _ => .error .malformed
  | fuel + 1, ts =>
    match ts with
    | .blockEntry :: ts => do
      let (item, ts) ← nodeUnless [.blockEntry, .blockEnd] true false fuel ts
      let (items, ts) ← blockItems fuel ts
      return (item :: items, ts)
    | .blockEnd :: ts => .ok ([], ts)
    | ts => .error (failureAt ts)

/-- The items of a sequence that is not indented; it ends before any other token. -/
def bareItems : Nat → Reader (List Node)
  | 0, _ => .error .malformed
  | fuel + 1, ts =>
    match ts with
    | .blockEntry :: ts => do
      let (item, ts) ← nodeUnless [.blockEntry, .key, .value, .blockEnd] true false fuel ts
      let (items, ts) ← bareItems fuel ts
      return (item :: items, ts)
    | ts => .ok ([], ts)

/-- The entries of a block mapping. -/
def blockEntries : Nat → Reader (List (Node × Node))
  | 0, _ => .error .malformed
  | fuel + 1, ts =>
    match ts with
    | .key :: ts => do
      let stops : List Token := [.key, .value, .blockEnd]
      let (key, ts) ← nodeUnless stops true true fuel ts
      let (value, ts) ← match ts with
        | .value :: ts => nodeUnless stops true true fuel ts
        | ts => .ok (absent, ts)
      let (entries, ts) ← blockEntries fuel ts
      return ((key, value) :: entries, ts)
    | .blockEnd :: ts => .ok ([], ts)
    | ts => .error (failureAt ts)

/-- The items of a flow sequence; all but the first stand behind a comma. An entry with a key is a mapping of its
own. -/
def flowItems (first : Bool) : Nat → Reader (List Node)
  | 0, _ => .error .malformed
  | fuel + 1, ts =>
    match ts with
    | .flowSequenceEnd :: ts => .ok ([], ts)
    | ts => do
      let ts ← if first then .ok ts else match ts with
        | .flowEntry :: ts => .ok ts
        | ts => .error (failureAt ts)
      match ts with
      | .flowSequenceEnd :: ts => return ([], ts)
      | .key :: ts =>
        let (key, ts) ← nodeUnless [.value, .flowEntry, .flowSequenceEnd] false false fuel ts
        let (value, ts) ← match ts with
          | .value :: ts => nodeUnless [.flowEntry, .flowSequenceEnd] false false fuel ts
          | ts => .ok (absent, ts)
        let (items, ts) ← flowItems false fuel ts
        return (mapping [(key, value)] :: items, ts)
      | ts =>
        let (item, ts) ← node false false fuel ts
        let (items, ts) ← flowItems false fuel ts
        return (item :: items, ts)

/-- The entries of a flow mapping; all but the first stand behind a comma. A node without a colon is a key without a
value. -/
def flowEntries (first : Bool) : Nat → Reader (List (Node × Node))
  | 0, _ => .error .malformed
  | fuel + 1, ts =>
    match ts with
    | .flowMappingEnd :: ts => .ok ([], ts)
    | ts => do
      let ts ← if first then .ok ts else match ts with
        | .flowEntry :: ts => .ok ts
        | ts => .error (failureAt ts)
      match ts with
      | .flowMappingEnd :: ts => return ([], ts)
      | .key :: ts =>
        let (key, ts) ← nodeUnless [.value, .flowEntry, .flowMappingEnd] false false fuel ts
        let (value, ts) ← match ts with
          | .value :: ts => nodeUnless [.flowEntry, .flowMappingEnd] false false fuel ts
          | ts => .ok (absent, ts)
        let (entries, ts) ← flowEntries false fuel ts
        return ((key, value) :: entries, ts)
      | ts =>
        let (key, ts) ← node false false fuel ts
        let (entries, ts) ← flowEntries false fuel ts
        return ((key, absent) :: entries, ts)

end

/-- The only document of a text, if there is one. -/
def ofTokens (ts : List Token) : Except Failure (Option Node) := do
  let fuel := 3 * ts.length + 3
  match ts with
  | [] => return none
  | t :: following =>
    let (root, rest) ←
      if t = .documentStart then
        if following.isEmpty then .ok (absent, following)
        else nodeUnless [.documentStart, .documentEnd] true false fuel following
      else node true false fuel (t :: following)
    match rest.dropWhile (· == .documentEnd) with
    | [] => return some root
    | ts => throw (failureAt ts)

end Node

end Conformance.Yaml
