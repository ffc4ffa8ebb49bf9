import Conformance.Pattern.Basic

/-!
# Scanning a text for a pattern

A scan goes from left to right. At each place it takes the preferred match, if there is one, and goes on at the end of
that match, so the matches it finds do not overlap. After an empty match it goes on one character further.
-/

namespace Conformance

/-- A match of a pattern: the matched piece and the piece that was marked in it. -/
structure Match where
  whole : Span
  marked : Option Span
deriving DecidableEq, Repr

namespace Match

/-- The offset behind the matched piece. -/
def stop (m : Match) : Nat := m.whole.start + m.whole.text.length

/-- The marked text; empty if nothing was marked. -/
def markedText (m : Match) : List Char := (m.marked.map (·.text)).getD []

end Match

namespace Pattern

/-- The preferred match that starts at the cursor. -/
def matchAt? (p : Pattern) (c : Cursor) : Option Match :=
  p.find (fun d => some ⟨c.upTo d, d.marked⟩) c

/-- The matches in the rest of a text, none of which starts in its first `skip` characters. -/
def scanFrom (p : Pattern) (last : Option Char) (offset skip : Nat) : List Char → List Match
  | [] => if skip = 0 then (p.matchAt? ⟨last, [], offset, none⟩).toList else []
  | x :: xs =>
    match skip with
    | skip + 1 => scanFrom p (some x) (offset + 1) skip xs
    | 0 =>
      match p.matchAt? ⟨last, x :: xs, offset, none⟩ with
      | some m => m :: scanFrom p (some x) (offset + 1) (m.whole.text.length - 1) xs
      | none => scanFrom p (some x) (offset + 1) 0 xs

/-- All matches in a text, from left to right and without overlap. -/
def scan (p : Pattern) (text : List Char) : List Match :=
  p.scanFrom none 0 0 text

/-- Whether a match starts somewhere in the rest of a text. -/
def occursFrom (p : Pattern) (last : Option Char) (offset : Nat) : List Char → Bool
  | [] => (p.matchAt? ⟨last, [], offset, none⟩).isSome
  | x :: xs =>
    (p.matchAt? ⟨last, x :: xs, offset, none⟩).isSome || occursFrom p (some x) (offset + 1) xs

/-- Whether the pattern matches somewhere in a text. -/
def occursIn (p : Pattern) (text : List Char) : Bool :=
  p.occursFrom none 0 text

end Pattern

end Conformance
