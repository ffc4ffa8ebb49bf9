import Conformance.Text.Line

/-!
# Positions and offsets

`positionAt text i` is the position of the character at the offset `i`: the line feeds before it, and its distance from
the last of them. Advancing from the start over a prefix reaches the position of its end (`start_advance`). Positions
grow with offsets (`before_positionAt`), so that each offset has a position of its own (`positionAt_inj`). The lines of
the characters of a text are counted (`lineAt_le_countLines`).
-/

namespace Conformance.Text

/-- The position of the character at `offset`. -/
def positionAt (text : List Char) (offset : Nat) : Position :=
  ⟨lineAt text offset, ((text.take offset).reverse.takeWhile (· != '\n')).length + 1⟩

namespace Position

/-- The order of positions within a text. -/
def Before (p q : Position) : Prop := p.line < q.line ∨ p.line = q.line ∧ p.column < q.column

theorem before_irrefl (p : Position) : ¬ p.Before p := by
  simp [Before]

theorem Before.trans {p q r : Position} (h : p.Before q) (h' : q.Before r) : p.Before r := by
  unfold Before at *
  omega

theorem before_next (p : Position) (c : Char) : p.Before (p.next c) := by
  by_cases hc : c = '\n' <;> simp [Before, next, hc]

theorem before_advance (p : Position) {cs : List Char} (h : cs ≠ []) : p.Before (p.advance cs) := by
  induction cs generalizing p with
  | nil => exact absurd rfl h
  | cons c cs ih =>
    cases cs with
    | nil => exact before_next p c
    | cons d cs => exact (before_next p c).trans (ih (p.next c) (by simp))

end Position

/-- The position after a piece of text, in terms of its line feeds. -/
theorem start_advance (cs : List Char) :
    Position.start.advance cs = ⟨lineFeeds cs + 1, (cs.reverse.takeWhile (· != '\n')).length + 1⟩ := by
  obtain ⟨ds, rfl⟩ : ∃ ds : List Char, cs = ds.reverse := ⟨cs.reverse, by simp⟩
  induction ds with
  | nil => rfl
  | cons d ds ih =>
    rw [List.reverse_cons, Position.advance_append, ih]
    by_cases hd : d = '\n' <;> simp [Position.advance, Position.next, lineFeeds, hd]

theorem positionAt_append (before after : List Char) :
    positionAt (before ++ after) before.length = Position.start.advance before := by
  simp [start_advance, positionAt, lineAt]

theorem positionAt_eq {text : List Char} {i : Nat} : positionAt text i = Position.start.advance (text.take i) := by
  rw [start_advance]; rfl

theorem before_positionAt {text : List Char} {i j : Nat} (hij : i < j) (hj : j ≤ text.length) :
    (positionAt text i).Before (positionAt text j) := by
  have hsplit : text.take j = text.take i ++ (text.drop i).take (j - i) := by
    rw [← List.take_add]; congr 1; omega
  have hne : (text.drop i).take (j - i) ≠ [] := by
    rw [← List.length_pos_iff]; simp; omega
  rw [positionAt_eq, positionAt_eq, hsplit, Position.advance_append]
  exact Position.before_advance _ hne

/-- Each offset has a position of its own. -/
theorem positionAt_inj {text : List Char} {i j : Nat} (hi : i ≤ text.length) (hj : j ≤ text.length)
    (h : positionAt text i = positionAt text j) : i = j := by
  rcases Nat.lt_trichotomy i j with hlt | heq | hgt
  · exact absurd (h ▸ before_positionAt hlt hj) (Position.before_irrefl _)
  · exact heq
  · exact absurd (h ▸ before_positionAt hgt hi) (Position.before_irrefl _)

/-! ## Lines that are counted -/

theorem countLines_append {before after : List Char} (h : after ≠ []) :
    countLines (before ++ after) = lineFeeds before + countLines after := by
  obtain ⟨init, c, rfl⟩ : ∃ init c, after = init ++ [c] := ⟨_, _, (List.dropLast_concat_getLast h).symm⟩
  simp only [countLines, ← List.append_assoc, List.getLast?_append, List.getLast?_singleton, Option.some_or,
    lineFeeds_append]
  omega

theorem lineFeeds_singleton (c : Char) : lineFeeds [c] = if c = '\n' then 1 else 0 := by
  simp [lineFeeds, List.count_singleton]

theorem countLines_singleton (c : Char) : countLines [c] = 1 := by
  by_cases hc : c = '\n' <;> simp [countLines, lineFeeds_singleton, hc]

theorem one_le_countLines {text : List Char} (h : text ≠ []) : 1 ≤ countLines text := by
  obtain ⟨init, c, rfl⟩ : ∃ init c, text = init ++ [c] := ⟨_, _, (List.dropLast_concat_getLast h).symm⟩
  rw [countLines_append (List.cons_ne_nil c []), countLines_singleton]
  exact Nat.le_add_left 1 _

theorem one_le_lineAt (text : List Char) (offset : Nat) : 1 ≤ lineAt text offset := Nat.le_add_left _ _

/-- **A character stands in one of the lines of the text**; what follows the last of them does not. -/
theorem lineAt_le_countLines {text : List Char} {offset : Nat} (h : offset < text.length) :
    lineAt text offset ≤ countLines text := by
  have hne : text.drop offset ≠ [] := by
    rw [← List.length_pos_iff, List.length_drop]
    omega
  have hsplit : countLines text = lineFeeds (text.take offset) + countLines (text.drop offset) := by
    rw [← countLines_append hne, List.take_append_drop]
  have hrest := one_le_countLines hne
  rw [lineAt, hsplit]
  omega

end Conformance.Text
