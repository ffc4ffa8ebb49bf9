/-!
# Occurrences of one text in another

Main statement: `occurs_iff`, a text occurs in another iff the latter splits around it.
-/

namespace Conformance.Text

/-- Whether `needle` occurs somewhere in a text. -/
def occurs (needle : List Char) : List Char → Bool
  | [] => needle.isEmpty
  | c :: cs => needle.isPrefixOf (c :: cs) || occurs needle cs

theorem occurs_iff {needle text : List Char} :
    occurs needle text = true ↔ ∃ u v, text = u ++ needle ++ v := by
  induction text with
  | nil =>
    simp only [occurs, List.isEmpty_iff]
    constructor
    · rintro rfl
      exact ⟨[], [], rfl⟩
    · rintro ⟨u, v, h⟩
      simp_all
  | cons c cs ih =>
    rw [occurs, Bool.or_eq_true, ih, List.isPrefixOf_iff_prefix]
    constructor
    · rintro (⟨v, h⟩ | ⟨u, v, h⟩)
      · exact ⟨[], v, by simpa using h.symm⟩
      · exact ⟨c :: u, v, by simp [h]⟩
    · rintro ⟨u, v, h⟩
      cases u with
      | nil => exact .inl ⟨v, by simpa using h.symm⟩
      | cons d u =>
        simp only [List.cons_append, List.cons.injEq] at h
        exact .inr ⟨u, v, h.2⟩

/-- Whether the string `needle` occurs in the string `s`. -/
def occursIn (needle s : String) : Bool :=
  occurs needle.toList s.toList

end Conformance.Text
