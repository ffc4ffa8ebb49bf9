/-!
# Terminal styling

Text that is not written to a terminal loses its styling: every escape character with a bracket, parameters and a
letter after it.
-/

namespace Conformance.Styling

/-- A character of the parameters of a style. -/
def isParameter (c : Char) : Bool := c.isDigit || c = ';' || c = '?'

/-- What follows a style that starts behind its bracket, if there is a whole one. -/
def after? (cs : List Char) : Option (List Char) :=
  match cs.dropWhile isParameter with
  | c :: rest => if c.isAlpha then some rest else none
  | [] => none

theorem length_le_of_after? {cs rest : List Char} (h : after? cs = some rest) : rest.length ≤ cs.length := by
  have hd := (List.dropWhile_suffix isParameter (l := cs)).length_le
  unfold after? at h
  split at h
  · next heq =>
    split at h
    · cases h
      rw [heq] at hd
      exact Nat.le_of_lt hd
    · cases h
  · cases h

/-- The text without its styling. -/
def remove : List Char → List Char
  | '\x1b' :: '[' :: cs =>
    match h : after? cs with
    | some rest => have := length_le_of_after? h; remove rest
    | none => '\x1b' :: '[' :: remove cs
  | c :: cs => c :: remove cs
  | [] => []
termination_by cs => cs.length

end Conformance.Styling
