import Conformance.Proofs.Text.Position
import Mathlib.Order.Monotone.Basic

/-!
# The numbers of lines

From one character to the next the number of the line grows by one behind a line feed, and behind any other character it
stays (`lineAt_succ`), so that no number is left out (`exists_lineAt_eq`). The last character stands in the last of the
lines that are counted (`lineAt_last`), and characters stand in all lines of a text and in no others
(`exists_lineAt_iff`). A line feed parts the lines of what stands before it from those of what follows
(`countLines_append_lineFeed`), and no other character does (`countLines_append_cons`).
-/

namespace Conformance.Text

section Numbers

variable (text : List Char)

theorem lineAt_zero : lineAt text 0 = 1 := rfl

/-- **Behind a line feed begins the next line**, and nowhere else. -/
theorem lineAt_succ (i : Nat) :
    lineAt text (i + 1) = lineAt text i + if text[i]? = some '\n' then 1 else 0 := by
  rw [lineAt, lineAt, List.take_add_one, lineFeeds_append]
  cases text[i]? with
  | none => rfl
  | some c =>
    rw [Option.toList_some, lineFeeds_singleton]
    simp only [Option.some.injEq]
    omega

theorem monotone_lineAt : Monotone (lineAt text) :=
  monotone_nat_of_le_succ fun i => lineAt_succ text i ▸ Nat.le_add_right _ _

variable {text}

/-- No number is left out on the way to an offset. -/
theorem exists_lineAt_eq {n offset : Nat} (hpos : 1 ≤ n) (hle : n ≤ lineAt text offset) :
    ∃ i ≤ offset, lineAt text i = n := by
  induction offset with
  | zero => exact ⟨0, Nat.le_refl 0, Nat.le_antisymm hpos hle⟩
  | succ offset ih =>
    by_cases hbefore : n ≤ lineAt text offset
    · obtain ⟨i, hi, hline⟩ := ih hbefore
      exact ⟨i, Nat.le_succ_of_le hi, hline⟩
    · -- the step to this offset is by one, so it reaches the number
      have hstep := lineAt_succ text offset
      refine ⟨offset + 1, Nat.le_refl _, ?_⟩
      split at hstep <;> omega

end Numbers

/-! ## The lines that are counted -/

theorem lineAt_length (text : List Char) : lineAt text text.length = lineFeeds text + 1 := by
  rw [lineAt, List.take_length]

/-- What is added to a text begins in the line that the text ends in. -/
theorem countLines_concat (text : List Char) (c : Char) : countLines (text ++ [c]) = lineAt text text.length := by
  rw [countLines_append (List.cons_ne_nil c []), countLines_singleton, lineAt_length]

/-- **The last character stands in the last line.** -/
theorem lineAt_last {text : List Char} (h : text ≠ []) : lineAt text (text.length - 1) = countLines text := by
  obtain ⟨before, c, rfl⟩ := (List.eq_nil_or_concat text).resolve_left h
  rw [List.concat_eq_append, countLines_concat, List.length_append, List.length_singleton, Nat.add_sub_cancel, lineAt,
    List.take_left, lineAt_length]

/-- **Characters stand in all lines of a text** and in no others. -/
theorem exists_lineAt_iff {text : List Char} {n : Nat} :
    (∃ i < text.length, lineAt text i = n) ↔ 1 ≤ n ∧ n ≤ countLines text := by
  constructor
  · rintro ⟨i, hi, rfl⟩
    exact ⟨one_le_lineAt text i, lineAt_le_countLines hi⟩
  · rintro ⟨hpos, hle⟩
    have hne : text ≠ [] := by
      rintro rfl
      exact absurd hpos (Nat.not_lt.mpr hle)
    obtain ⟨i, hi, hline⟩ := exists_lineAt_eq hpos (lineAt_last hne ▸ hle)
    have hlength := List.length_pos_iff.mpr hne
    exact ⟨i, by omega, hline⟩

/-- A character before others adds a line if it is a line feed. -/
theorem countLines_append_cons_of_ne_nil {b : List Char} (h : b ≠ []) (a : List Char) (c : Char) :
    countLines (a ++ c :: b) = lineFeeds a + (if c = '\n' then 1 else 0) + countLines b := by
  rw [List.append_cons, countLines_append h, lineFeeds_append, lineFeeds_singleton]

/-- **A line feed parts the lines** of what stands before it from those of what follows. -/
theorem countLines_append_lineFeed (a b : List Char) :
    countLines (a ++ '\n' :: b) = lineAt a a.length + countLines b := by
  by_cases hb : b = []
  · rw [hb]
    exact countLines_concat a '\n'
  · rw [countLines_append_cons_of_ne_nil hb, if_pos rfl, lineAt_length]

/-- **No other character parts lines**: between other characters it changes nothing, and at the end it stands in the line
that is there. -/
theorem countLines_append_cons {c : Char} (h : c ≠ '\n') (a b : List Char) :
    countLines (a ++ c :: b) = if b = [] then lineAt a a.length else countLines (a ++ b) := by
  split
  case isTrue hb =>
    rw [hb]
    exact countLines_concat a c
  case isFalse hb => rw [countLines_append_cons_of_ne_nil hb, if_neg h, Nat.add_zero, countLines_append hb]

/-- **The lines in which characters stand are the lines that are counted.** Their numbers begin with 1, never fall, grow
by one behind each line feed and nowhere else, and are the numbers up to that of all lines. Texts that a line feed parts
have their lines one after the other, and all other characters, separators or not, are alike. -/
theorem lineAt_numbers_countLines :
    (∀ text : List Char, lineAt text 0 = 1 ∧ Monotone (lineAt text) ∧
      (∀ i, lineAt text (i + 1) = lineAt text i + if text[i]? = some '\n' then 1 else 0) ∧
        ∀ n, (∃ i < text.length, lineAt text i = n) ↔ 1 ≤ n ∧ n ≤ countLines text) ∧
      ∀ a b : List Char, countLines (a ++ '\n' :: b) = lineAt a a.length + countLines b ∧
        ∀ c ≠ '\n', countLines (a ++ c :: b) = if b = [] then lineAt a a.length else countLines (a ++ b) :=
  ⟨fun text => ⟨lineAt_zero text, monotone_lineAt text, lineAt_succ text, fun _ => exists_lineAt_iff⟩,
    fun a b => ⟨countLines_append_lineFeed a b, fun _ hc => countLines_append_cons hc a b⟩⟩

/-- A form feed between two characters makes no line. -/
theorem lineAt_numbers_countLines_formFeed : '\x0c' ≠ '\n' ∧
    countLines (['a', '\n', 'b'] ++ '\x0c' :: ['c']) = countLines ['a', '\n', 'b', 'c'] := by
  have hne : '\x0c' ≠ '\n' := by decide
  have hbetween := (lineAt_numbers_countLines.2 ['a', '\n', 'b'] ['c']).2 '\x0c' hne
  rw [if_neg (List.cons_ne_nil 'c' [])] at hbetween
  exact ⟨hne, hbetween⟩

end Conformance.Text
