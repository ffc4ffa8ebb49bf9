import Mathlib.Data.List.Basic

/-!
# The lines of a text

The line feeds of a text part its lines. Records that are joined by line feeds can be read back as the lines of the
joined text if no record holds a line feed itself, and not even their number is right if one does
(`length_lines_intercalate`).
-/

namespace Conformance.Text

/-- What stands between the line feeds of a text; the empty text has no lines. -/
def lines (text : List Char) : List (List Char) := if text = [] then [] else text.splitOn '\n'

/-- There is one piece more than there are separators. -/
theorem length_splitOn (c : Char) (cs : List Char) : (cs.splitOn c).length = cs.count c + 1 := by
  induction cs with
  | nil => simp
  | cons d cs ih =>
    rw [List.splitOn_cons_eq_if_modifyHead]
    by_cases hd : d = c <;> simp [hd, ih]

/-- Every separator in one of several texts makes one piece more. -/
theorem length_flatMap_splitOn (c : Char) (css : List (List Char)) :
    (css.flatMap (List.splitOn c)).length = css.length + css.flatten.count c := by
  induction css with
  | nil => rfl
  | cons cs css ih =>
    rw [List.flatMap_cons, List.length_append, ih, length_splitOn, List.length_cons, List.flatten_cons,
      List.count_append]
    omega

section Records

variable {records : List (List Char)}

/-- The lines of joined records are the lines of one record after the other. -/
theorem lines_intercalate (h : ∀ r ∈ records, r ≠ []) :
    lines (['\n'].intercalate records) = records.flatMap (List.splitOn '\n') := by
  have hsplit : ∀ (r : List Char) (rs : List (List Char)),
      (['\n'].intercalate (r :: rs)).splitOn '\n' = (r :: rs).flatMap (List.splitOn '\n') := by
    intro r rs
    induction rs generalizing r with
    | nil => simp
    | cons s rs ih =>
      rw [List.intercalate_cons_cons, List.append_assoc, List.singleton_append, List.splitOn_append_cons_self, ih s]
      rfl
  cases records with
  | nil => rfl
  | cons r rs =>
    have hne : ['\n'].intercalate (r :: rs) ≠ [] := by
      have hr := h r List.mem_cons_self
      cases rs <;> simp [hr]
    rw [lines, if_neg hne, hsplit]

theorem lines_intercalate_of_notMem (h : ∀ r ∈ records, r ≠ []) (hline : ∀ r ∈ records, '\n' ∉ r) :
    lines (['\n'].intercalate records) = records := by
  rw [lines_intercalate h]
  induction records with
  | nil => rfl
  | cons r rs ih =>
    obtain ⟨hr, hrs⟩ := List.forall_mem_cons.mp hline
    rw [List.flatMap_cons, ih (List.forall_mem_cons.mp h).2 hrs, List.splitOn_eq_singleton hr]
    rfl

/-- **There are as many lines as records iff no record holds a line feed.** -/
theorem length_lines_intercalate (h : ∀ r ∈ records, r ≠ []) :
    (lines (['\n'].intercalate records)).length = records.length ↔ ∀ r ∈ records, '\n' ∉ r := by
  rw [lines_intercalate h, length_flatMap_splitOn, Nat.add_eq_left, List.count_eq_zero]
  simp only [List.mem_flatten, not_exists, not_and]

end Records

end Conformance.Text
