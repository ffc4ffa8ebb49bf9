import Conformance.Proofs.Pattern.Opening
import Conformance.Proofs.Text.Padding

/-!
# Patterns in padded texts

Empty lines in front of a text move the matches of a pattern and change nothing else about them (`scan_padded`), if the
pattern matches nothing that is empty or that begins with a line feed (`StartsInLine`).

The reason is that matching looks at what follows a place and at the character before it, and that the start of a text
is to it what the place behind a line feed is: it starts a line, and no word goes on there. So the ends of a match move
with the place (`ends_padded`), and with them the preferred match (`matchAt?_padded`).
-/

namespace Conformance

/-! ## Moving -/

/-- The piece of text `k` characters further on. -/
def Span.moved (k : Nat) (s : Span) : Span := { s with start := s.start + k }

namespace Match

/-- The match `k` characters further on. -/
def moved (k : Nat) (m : Match) : Match := ⟨m.whole.moved k, m.marked.map (Span.moved k)⟩

variable (k : Nat) (m : Match)

@[simp] theorem text_moved : (m.moved k).whole.text = m.whole.text := rfl

@[simp] theorem start_moved : (m.moved k).whole.start = m.whole.start + k := rfl

@[simp] theorem markedText_moved : (m.moved k).markedText = m.markedText := by
  rw [markedText, moved, Option.map_map]
  rfl

theorem stop_moved : (m.moved k).stop = m.stop + k := by
  simp only [stop, text_moved, start_moved]
  omega

theorem moved_zero : moved 0 = id := by
  funext m
  obtain ⟨whole, marked⟩ := m
  cases marked <;> rfl

end Match

namespace Cursor

/-- The cursor in the text with `k` empty lines in front: before the first character there is a line feed now. -/
def padded (k : Nat) (c : Cursor) : Cursor :=
  ⟨some (c.last.getD '\n'), c.rest, c.offset + k, c.marked.map (Span.moved k)⟩

theorem upTo_padded (k : Nat) (c d : Cursor) : (c.padded k).upTo (d.padded k) = (c.upTo d).moved k := by
  simp only [upTo, padded, Span.moved, Span.mk.injEq, true_and]
  congr 1
  omega

end Cursor

namespace Pattern

variable (k : Nat)

/-! ## Ends -/

section Ends

variable (c : Cursor)

theorem atWordEdge_padded : atWordEdge (c.padded k) = atWordEdge c := by
  have hnone : Text.isWord '\n' = false := by decide
  obtain ⟨last, rest, offset, marked⟩ := c
  cases last with
  | none => simp [atWordEdge, Cursor.padded, hnone]
  | some x => rfl

theorem atLineStart_padded : atLineStart (c.padded k) = atLineStart c := by
  obtain ⟨last, rest, offset, marked⟩ := c
  cases last <;> rfl

theorem stops_padded (test : List Char → Bool) (last : Option Char) (offset : Nat) (marked : Option Span)
    (xs : List Char) : stops test (some (last.getD '\n')) (offset + k) (marked.map (Span.moved k)) xs =
      (stops test last offset marked xs).map (Cursor.padded k) := by
  induction xs generalizing last offset with
  | nil => rfl
  | cons x xs ih =>
    have hnext := ih (some x) (offset + 1)
    rw [Nat.add_right_comm] at hnext
    rw [stops, stops, List.map_cons]
    congr 1
    by_cases hx : test (x :: xs) = true
    · rw [if_pos hx, if_pos hx]
      exact hnext
    · rw [if_neg hx, if_neg hx]
      rfl

theorem runEnds_padded (greedy : Bool) (least : Nat) (test : List Char → Bool) :
    runEnds greedy least test (c.padded k) = (runEnds greedy least test c).map (Cursor.padded k) := by
  have hstops := stops_padded k test c.last c.offset c.marked c.rest
  rw [runEnds, runEnds, Cursor.padded, hstops, ← List.map_drop]
  cases greedy with
  | true => exact List.map_reverse.symm
  | false => rfl

/-- **The ends of a match move with the place** from which the pattern is matched. -/
theorem ends_padded (p : Pattern) (c : Cursor) : p.ends (c.padded k) = (p.ends c).map (Cursor.padded k) := by
  induction p generalizing c with
  | empty => rfl
  | char test =>
    obtain ⟨last, rest, offset, marked⟩ := c
    cases rest with
    | nil => rfl
    | cons x xs =>
      by_cases hx : test x = true
      · simp [ends, Cursor.padded, hx, Nat.add_right_comm]
      · simp [ends, Cursor.padded, hx]
  | seq p q ihp ihq =>
    rw [ends, ends, ihp, List.flatMap_map, List.map_flatMap]
    congr 1
    funext d
    exact ihq d
  | alt p q ihp ihq => rw [ends, ends, ihp, ihq, List.map_append]
  | run greedy least test => exact runEnds_padded k c greedy least test
  | mark p ih =>
    rw [ends, ends, ih, List.map_map, List.map_map]
    refine List.map_congr_left fun d _ => ?_
    simp only [Function.comp_apply, Cursor.upTo_padded]
    rfl
  | wordEdge =>
    rw [ends, ends, atWordEdge_padded]
    split <;> rfl
  | lineStart =>
    rw [ends, ends, atLineStart_padded]
    split <;> rfl

end Ends

/-! ## Scans -/

/-- **The preferred match moves with the place.** -/
theorem matchAt?_padded (p : Pattern) (c : Cursor) : p.matchAt? (c.padded k) = (p.matchAt? c).map (Match.moved k) := by
  rw [matchAt?_eq_head?, matchAt?_eq_head?, ends_padded, List.head?_map, Option.map_map, Option.map_map]
  congr 1
  funext d
  simp only [Function.comp_apply, Cursor.upTo_padded]
  rfl

theorem scanFrom_padded (p : Pattern) (last : Option Char) (offset skip : Nat) (xs : List Char) :
    p.scanFrom (some (last.getD '\n')) (offset + k) skip xs = (p.scanFrom last offset skip xs).map (Match.moved k) := by
  induction xs generalizing last offset skip with
  | nil =>
    have hmatch := matchAt?_padded k p ⟨last, [], offset, none⟩
    rw [scanFrom, scanFrom]
    split
    · rw [← Option.toList_map, ← hmatch]
      rfl
    · rfl
  | cons x xs ih =>
    have hnext := fun skip => ih (some x) (offset + 1) skip
    simp only [Nat.add_right_comm offset 1 k] at hnext
    have hmatch : p.matchAt? ⟨some (last.getD '\n'), x :: xs, offset + k, none⟩ = _ :=
      matchAt?_padded k p ⟨last, x :: xs, offset, none⟩
    cases skip with
    | succ skip => exact hnext skip
    | zero =>
      rw [scanFrom, scanFrom, hmatch]
      cases p.matchAt? ⟨last, x :: xs, offset, none⟩ with
      | none => exact hnext 0
      | some m => exact congrArg (m.moved k :: ·) (hnext _)

variable {k}

/-- Nothing is found in empty lines. -/
theorem scanFrom_emptyLines {p : Pattern} (hp : p.StartsInLine) (last : Option Char) (offset : Nat)
    (text : List Char) :
    p.scanFrom last offset 0 (Text.padded (k + 1) text) = p.scanFrom (some '\n') (offset + (k + 1)) 0 text := by
  have hnone : ∀ (last : Option Char) (rest : List Char) (offset : Nat),
      p.matchAt? ⟨last, '\n' :: rest, offset, none⟩ = none := by
    intro last rest offset
    rw [matchAt?_eq_head?, ends_eq_nil hp.notNullable hp.notLineFeed rfl]
    rfl
  induction k generalizing last offset with
  | zero => rw [Text.padded_succ, Text.padded_zero, scanFrom, hnone]
  | succ k ih =>
    have hrest := ih (some '\n') (offset + 1)
    rw [Nat.add_assoc, Nat.add_comm 1] at hrest
    rw [Text.padded_succ, scanFrom, hnone]
    exact hrest

/-- **Empty lines in front of a text move its matches** and neither hide one nor add one. -/
theorem scan_padded {p : Pattern} (hp : p.StartsInLine) (k : Nat) (text : List Char) :
    p.scan (Text.padded k text) = (p.scan text).map (Match.moved k) := by
  cases k with
  | zero => rw [Text.padded_zero, Match.moved_zero, List.map_id]
  | succ k =>
    rw [scan, scanFrom_emptyLines hp]
    exact scanFrom_padded (k + 1) p none 0 0 text

end Pattern

end Conformance
