import Conformance.Proofs.Pattern.Finding
import Conformance.Proofs.Text.Word

/-!
# Words in a pattern

Where a word stands with a blank behind it, the pattern for the word goes on behind the blank (`find_word`). A word that
may be there is taken where it stands, and left out where something else begins (`find_optionalWord`). Of several words
none of which begins another (`PrefixFree`), the one that stands there is taken (`find_oneOf_text`).

If every match begins with a word, a scan passes over a text in which the word begins nowhere (`scanFrom_of_clear`).
-/

namespace Conformance.Pattern

open Text

variable {α : Type} {k : Cursor → Option α} {a : α} {c : Cursor} {ps : List Pattern} {xs : List Char} {word : String}

/-- A word with one blank behind it. -/
theorem find_word (h : c.rest = word.toList ++ ' ' :: xs) (hxs : ∀ y ∈ xs.head?, isBlank y = false) :
    (inOrder (text word :: blanks 1 :: ps)).find k c = (inOrder ps).find k (c.past (word.toList ++ [' '])) := by
  have hblank : isBlank ' ' = true := by decide
  rw [find_inOrder_cons, find_text h, find_inOrder_cons, find_blank (Cursor.rest_past h) hblank hxs, Cursor.past_append]

/-- A word is matched only where it stands, with white space behind it. -/
theorem exists_blank_of_mem_ends {d : Cursor} (h : d ∈ (inOrder (text word :: blanks 1 :: ps)).ends c) :
    ∃ b ys, isBlank b = true ∧ c.rest = word.toList ++ b :: ys := by
  obtain ⟨t, ht, u, v, rfl, hu, s, e, rfl, hs, -⟩ := exists_fitting_of_mem_ends h
  obtain ⟨hlength, hblank⟩ := fits_blanks.mp hs
  obtain rfl := fits_text.mp hu
  cases s with
  | nil => cases hlength
  | cons b s => exact ⟨b, s ++ (e ++ d.rest), hblank b List.mem_cons_self, by simpa using ht.rest⟩

/-- In front of a character of a word there is an edge, unless the word goes on there. -/
theorem atWordEdge_of_isWord {x : Char} (h : c.rest = x :: xs) (hx : isWord x = true) :
    atWordEdge c = !c.last.any isWord := by
  rw [atWordEdge, h, List.head?_cons, Option.any_some, hx]
  cases c.last.any isWord <;> rfl

/-! ## Words that may be there -/

/-- A word that may be there is taken if it is there. -/
theorem find_optionalWord_some (h : c.rest = word.toList ++ ' ' :: xs) (hxs : ∀ y ∈ xs.head?, isBlank y = false)
    (hk : k (c.past (word.toList ++ [' '])) = some a) : (optionalWord word).find k c = some a := by
  apply find_optional_some
  rw [find_word h hxs]
  exact hk

/-- A word that may be there is left out if something else is there. -/
theorem find_optionalWord_none (h : ¬ Opens word.toList none c.rest) : (optionalWord word).find k c = k c := by
  apply find_optional_none
  apply find_of_ends_eq_nil
  rw [List.eq_nil_iff_forall_not_mem]
  intro d hd
  obtain ⟨b, ys, hb, hrest⟩ := exists_blank_of_mem_ends hd
  exact h ⟨rfl, b, ys, hb, hrest⟩

/-- The word and a blank, if it is there. -/
def wordIf (word : String) (isThere : Bool) : List Char := if isThere then word.toList ++ [' '] else []

/-- How a text begins that a word may stand in front of. -/
theorem forall_head?_wordIf {P : Char → Prop} {isThere : Bool} {x : Char} {w : List Char} (hword : word.toList = x :: w)
    (hx : P x) (hxs : ∀ y ∈ xs.head?, P y) : ∀ y ∈ (wordIf word isThere ++ xs).head?, P y := by
  cases isThere with
  | false => exact hxs
  | true =>
    intro y hy
    rw [wordIf, if_pos rfl, hword] at hy
    obtain rfl := Option.some.inj hy
    exact hx

/-- A word that may be there, in front of something that begins neither as the word does nor with white space. -/
theorem find_optionalWord {isThere : Bool} (h : c.rest = wordIf word isThere ++ xs)
    (hxs : ∀ y ∈ xs.head?, isBlank y = false) (hother : ∀ y ∈ xs.head?, word.toList.head? ≠ some y)
    (hk : k (c.past (wordIf word isThere)) = some a) : (optionalWord word).find k c = some a := by
  cases isThere with
  | true => exact find_optionalWord_some (h.trans (List.append_assoc ..)) hxs hk
  | false =>
    rw [find_optionalWord_none]
    · exact hk
    · have hrest : c.rest = xs := h
      rw [hrest]
      rintro ⟨-, b, ys, hb, rfl⟩
      cases hword : word.toList with
      | nil =>
        rw [hxs b (by rw [hword]; rfl)] at hb
        cases hb
      | cons x w => exact hother x (by rw [hword]; rfl) (by rw [hword]; rfl)

/-! ## Several words -/

/-- None of the words begins another one. -/
def PrefixFree (words : List String) : Prop :=
  ∀ u ∈ words, ∀ v ∈ words, u.toList <+: v.toList → u = v

instance (words : List String) : Decidable (PrefixFree words) := inferInstanceAs (Decidable (∀ u ∈ words, _))

/-- Of several words, the one that stands there is taken. -/
theorem find_oneOf_text {words : List String} (hwords : PrefixFree words) (hword : word ∈ words)
    (h : c.rest = word.toList ++ xs) (hk : k (c.past word.toList) = some a) :
    (oneOf (words.map text)).find k c = some a := by
  induction words with
  | nil => cases hword
  | cons v words ih =>
    show (alt (text v) (oneOf (words.map text))).find k c = some a
    by_cases hv : word = v
    · subst hv
      exact find_alt_left ((find_text h).trans hk)
    · have hfails : (text v).find k c = none := by
        apply find_eq_none_of_not_fits
        intro t ht hprefix
        rw [fits_text.mp ht, h] at hprefix
        rcases List.prefix_or_prefix_of_prefix hprefix (List.prefix_append word.toList xs) with hbegins | hbegins
        · exact hv (hwords v List.mem_cons_self word hword hbegins).symm
        · exact hv (hwords word hword v List.mem_cons_self hbegins)
      have hrest : PrefixFree words := fun u hu w hw =>
        hwords u (List.mem_cons_of_mem v hu) w (List.mem_cons_of_mem v hw)
      rw [find_alt_right hfails]
      exact ih hrest ((List.mem_cons.mp hword).resolve_left hv)

/-! ## Text without the word -/

/-- **Text is passed over** if the word that every match begins with begins nowhere in it. -/
theorem scanFrom_of_clear {p : Pattern} {word : List Char} {last : Option Char} {offset : Nat} {t after : List Char}
    (hp : ∀ c : Cursor, ¬ word <+: c.rest → p.matchAt? c = none) (h : Clear word after t) :
    p.scanFrom last offset 0 (t ++ after) = p.scanFrom (Cursor.lastOf last t) (offset + t.length) 0 after := by
  apply scanFrom_of_nowhere
  rintro u x v rfl offset
  exact hp _ (clear_append.mp h).2.1

end Conformance.Pattern
