import Conformance.Text.Alphanumeric
import Conformance.Text.Blank
import Conformance.Text.CaseFold

/-!
# Text patterns

A pattern describes pieces of text. It is matched at a cursor, which stands between two characters, and may match
pieces of several lengths; their ends are tried in an order of preference that the pattern fixes. An alternative prefers
its left side, and a run of characters is greedy (longest first) or lazy (shortest first).

`Pattern.ends` lists the ends in order of preference; `Pattern.find` looks for the first end that a continuation
accepts and computes no more ends than that. They agree (`find_eq`).
-/

namespace Conformance

/-- A piece of a text: where it starts and its characters. -/
structure Span where
  start : Nat
  text : List Char
deriving DecidableEq, Repr

/-- A place in a text during matching, and the piece that was marked so far. -/
structure Cursor where
  /-- The character before the place. -/
  last : Option Char
  /-- The text from the place on. -/
  rest : List Char
  /-- The number of characters before the place. -/
  offset : Nat
  /-- The piece of text that the last `mark` on the way has matched. -/
  marked : Option Span
deriving DecidableEq, Repr

namespace Cursor

/-- The start of a text. -/
def start (text : List Char) : Cursor := ⟨none, text, 0, none⟩

/-- The piece of text from `c` to a later place `d`. -/
def upTo (c d : Cursor) : Span :=
  ⟨c.offset, c.rest.take (d.offset - c.offset)⟩

end Cursor

inductive Pattern where
  /-- The empty piece. -/
  | empty
  /-- One character. -/
  | char (test : Char → Bool)
  /-- One pattern after the other. -/
  | seq (p q : Pattern)
  /-- Either pattern, the left one by preference. -/
  | alt (p q : Pattern)
  /-- At least `least` characters, at each of which the text from there on passes the test. -/
  | run (greedy : Bool) (least : Nat) (test : List Char → Bool)
  /-- The same as `p`, and what it matches is marked. -/
  | mark (p : Pattern)
  /-- The empty piece between a word character and something else. -/
  | wordEdge
  /-- The empty piece at the start of a line. -/
  | lineStart

namespace Pattern

/-- The places that a run may reach from a cursor, the nearest first. -/
def stops (test : List Char → Bool) (last : Option Char) (offset : Nat) (marked : Option Span) :
    List Char → List Cursor
  | [] => [⟨last, [], offset, marked⟩]
  | x :: xs =>
    ⟨last, x :: xs, offset, marked⟩ ::
      if test (x :: xs) then stops test (some x) (offset + 1) marked xs else []

/-- The ends of a run from `c`, in order of preference. -/
def runEnds (greedy : Bool) (least : Nat) (test : List Char → Bool) (c : Cursor) : List Cursor :=
  let reached := (stops test c.last c.offset c.marked c.rest).drop least
  if greedy then reached.reverse else reached

/-- Whether the cursor stands between a word character and something else. -/
def atWordEdge (c : Cursor) : Bool :=
  c.last.any Text.isWord != c.rest.head?.any Text.isWord

/-- Whether the cursor stands at the start of a line. -/
def atLineStart (c : Cursor) : Bool :=
  c.last.all (· == '\n')

/-- All ends of matches from `c`, in order of preference. -/
def ends : Pattern → Cursor → List Cursor
  | empty, c => [c]
  | char test, c =>
    match c.rest with
    | [] => []
    | x :: xs => if test x then [⟨some x, xs, c.offset + 1, c.marked⟩] else []
  | seq p q, c => (p.ends c).flatMap q.ends
  | alt p q, c => p.ends c ++ q.ends c
  | run greedy least test, c => runEnds greedy least test c
  | mark p, c => (p.ends c).map fun d => { d with marked := some (c.upTo d) }
  | wordEdge, c => if atWordEdge c then [c] else []
  | lineStart, c => if atLineStart c then [c] else []

/-- What the continuation `k` makes of the first end it accepts. -/
def find {α : Type} : Pattern → (Cursor → Option α) → Cursor → Option α
  | empty, k, c => k c
  | char test, k, c =>
    match c.rest with
    | [] => none
    | x :: xs => if test x then k ⟨some x, xs, c.offset + 1, c.marked⟩ else none
  | seq p q, k, c => p.find (q.find k) c
  | alt p q, k, c => (p.find k c).orElse fun _ => q.find k c
  | run greedy least test, k, c => (runEnds greedy least test c).findSome? k
  | mark p, k, c => p.find (fun d => k { d with marked := some (c.upTo d) }) c
  | wordEdge, k, c => if atWordEdge c then k c else none
  | lineStart, k, c => if atLineStart c then k c else none

theorem findSome?_flatMap {α β γ : Type} (f : α → List β) (k : β → Option γ) (xs : List α) :
    (xs.flatMap f).findSome? k = xs.findSome? fun x => (f x).findSome? k := by
  induction xs with
  | nil => rfl
  | cons x xs ih =>
    rw [List.flatMap_cons, List.findSome?_append, ih, List.findSome?_cons]
    cases (f x).findSome? k <;> rfl

theorem find_eq {α : Type} (p : Pattern) (k : Cursor → Option α) (c : Cursor) :
    p.find k c = (p.ends c).findSome? k := by
  induction p generalizing k c with
  | empty => simp [find, ends]
  | char test =>
    rw [find, ends]
    split
    · simp
    · split <;> simp
  | seq p q ihp ihq =>
    have hq : q.find k = fun d => (q.ends d).findSome? k := funext fun d => ihq k d
    rw [find, ends, ihp, hq, findSome?_flatMap]
  | alt p q ihp ihq =>
    rw [find, ends, ihp, ihq, List.findSome?_append]
    cases (p.ends c).findSome? k <;> rfl
  | run => rfl
  | mark p ih => rw [find, ends, ih, List.findSome?_map]; rfl
  | wordEdge => rw [find, ends]; split <;> simp
  | lineStart => rw [find, ends]; split <;> simp

/-! ## Building patterns -/

/-- The pattern that matches nothing. -/
def never : Pattern := char fun _ => false

/-- The characters of a string, each by the test that it gives. -/
def spell (test : Char → Char → Bool) (s : String) : Pattern :=
  s.toList.foldr (fun x p => seq (char (test x)) p) empty

/-- Exactly this text. -/
def text (s : String) : Pattern := spell (fun x y => x == y) s

/-- This ASCII text in any case. -/
def anyCase (s : String) : Pattern := spell (fun x y => Text.foldCase x == Text.foldCase y) s

/-- One of the patterns, an earlier one by preference. -/
def oneOf (ps : List Pattern) : Pattern := ps.foldr alt never

/-- The pattern or nothing; the pattern by preference. -/
def optional (p : Pattern) : Pattern := alt p empty

/-- The patterns one after the other. -/
def inOrder (ps : List Pattern) : Pattern := ps.foldr seq empty

/-- At least `least` characters of a class, as many as possible. -/
def greedily (least : Nat) (test : Char → Bool) : Pattern :=
  run true least fun cs => cs.head?.any test

/-- At least `least` characters of a class, as few as possible. -/
def lazily (least : Nat) (test : Char → Bool) : Pattern :=
  run false least fun cs => cs.head?.any test

/-- At least `least` white-space characters. -/
def blanks (least : Nat) : Pattern := greedily least Text.isBlank

/-- A word and white space after it, or nothing. -/
def optionalWord (word : String) : Pattern := optional (inOrder [text word, blanks 1])

end Pattern

end Conformance
