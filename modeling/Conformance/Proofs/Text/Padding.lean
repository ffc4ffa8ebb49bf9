import Conformance.Text.Blank
import Conformance.Text.Line
import Conformance.Text.Occurrence

/-!
# Empty lines in front of a text

A text that is padded with empty lines keeps what it holds, further down: the number of each line grows by the number
of empty lines (`lineAt_padded`), a word occurs iff it occurred before (`occurs_padded`), and the empty lines are white
space, which trimming takes away (`trim_blanks_append`).
-/

namespace Conformance.Text

/-- The text with `k` empty lines in front. -/
def padded (k : Nat) (text : List Char) : List Char := List.replicate k '\n' ++ text

variable (k : Nat) (text : List Char)

@[simp] theorem padded_zero : padded 0 text = text := rfl

theorem padded_succ : padded (k + 1) text = '\n' :: padded k text := rfl

@[simp] theorem lineFeeds_padded : lineFeeds (padded k text) = k + lineFeeds text := by
  rw [padded, lineFeeds_append, lineFeeds, List.count_replicate_self]

/-- What a padded text holds from an offset on: the rest of the empty lines, and the rest of the text. -/
theorem drop_padded (n : Nat) : (padded k text).drop n = padded (k - n) (text.drop (n - k)) := by
  rw [padded, List.drop_append, List.drop_replicate, List.length_replicate, padded]

theorem take_padded (n : Nat) : (padded k text).take (n + k) = padded k (text.take n) := by
  rw [padded, List.take_append, List.take_replicate, List.length_replicate, padded, Nat.min_eq_right (by omega),
    Nat.add_sub_cancel]

theorem lineAt_padded (offset : Nat) : lineAt (padded k text) (offset + k) = lineAt text offset + k := by
  rw [lineAt, take_padded, lineFeeds_padded, lineAt]
  omega

/-- A word on one line occurs in a padded text iff it occurs in the text. -/
theorem occurs_padded {needle : List Char} (h : '\n' ∉ needle) :
    occurs needle (padded k text) = occurs needle text := by
  induction k with
  | zero => rfl
  | succ k ih =>
    rw [padded_succ, occurs, ih]
    cases needle with
    | nil => cases text <;> simp [occurs]
    | cons x needle =>
      have hx : x ≠ '\n' := fun hx => h (hx ▸ List.mem_cons_self)
      simp [List.isPrefixOf, hx]

/-- White space in front is trimmed away. -/
theorem trim_blanks_append {blanks : List Char} (h : ∀ c ∈ blanks, isBlank c = true) :
    trim (blanks ++ text) = trim text := by
  rw [trim, trim, List.dropWhile_append_of_pos h]

end Conformance.Text
