import Conformance.Proofs.Pattern.Scan
import Conformance.Proofs.Rule.Lexeme
import Conformance.Text.Occurrence

/-!
# Words in a text

A keyword opens a statement where it stands by itself: behind something that is no word character, and before white
space (`Opens`). A text that is made of other words and of characters between words `Avoids` the keyword, so the keyword
opens nothing in it, whatever stands around the text (`Avoids.quiet`).

A text is `Clear` of a word that begins nowhere in it, so that it is quiet as well (`Clear.quiet`). A word does not go
over a character that it does not have (`occurs_append_cons`).
-/

namespace Conformance.Text

/-! ## Runs of word characters -/

/-- White space is no part of a word. -/
theorem isWord_of_isBlank {c : Char} (h : isBlank c = true) : isWord c = false := by
  have hall : ∀ n ∈ Lexeme.points blankRanges, isWord (Char.ofNat n) = false := by decide +kernel
  simpa using hall c.toNat (Lexeme.mem_points h)

theorem isBlank_of_isWord {c : Char} (h : isWord c = true) : isBlank c = false := by
  cases hb : isBlank c with
  | false => rfl
  | true => rw [isWord_of_isBlank hb] at h; cases h

/-- A word that stands before `rest` ends there. -/
def StopsWord (rest : List Char) : Prop := ∀ c ∈ rest.head?, isWord c = false

theorem stopsWord_cons {x : Char} {t : List Char} (hx : isWord x = false) : StopsWord (x :: t) := by
  intro c hc
  obtain rfl := Option.some.inj hc
  exact hx

theorem StopsWord.append {s t : List Char} (hs : ∀ c ∈ s, isWord c = false) (ht : StopsWord t) :
    StopsWord (s ++ t) := by
  cases s with
  | nil => exact ht
  | cons x s => exact stopsWord_cons (hs x List.mem_cons_self)

/-- Two runs of a class at the beginning of one text are one run if both end where the class ends. -/
theorem run_eq_of_append_eq {test : Char → Bool} {v w rest after : List Char} (hv : ∀ c ∈ v, test c = true)
    (hw : ∀ c ∈ w, test c = true) (hrest : ∀ c ∈ rest.head?, test c = false)
    (hafter : ∀ c ∈ after.head?, test c = false) (h : v ++ rest = w ++ after) : v = w ∧ rest = after := by
  have hrun : v = w := by
    rw [← Lexeme.takeWhile_of_stop hv hrest, h, Lexeme.takeWhile_of_stop hw hafter]
  exact ⟨hrun, List.append_cancel_left (hrun ▸ h)⟩

/-- Two words at the beginning of one text are one word if both end there. -/
theorem eq_of_append_eq {v w rest after : List Char} (hv : ∀ c ∈ v, isWord c = true) (hw : ∀ c ∈ w, isWord c = true)
    (hrest : StopsWord rest) (hafter : StopsWord after) (h : v ++ rest = w ++ after) : v = w :=
  (run_eq_of_append_eq hv hw hrest hafter h).1

/-! ## Keywords -/

/-- The keyword stands at the beginning of `rest`, and by itself: no word character is before it and white space is
behind it. -/
def Opens (keyword : List Char) (last : Option Char) (rest : List Char) : Prop :=
  last.any isWord = false ∧ ∃ b xs, isBlank b = true ∧ rest = keyword ++ b :: xs

/-- The keyword opens nothing in the text, which stands between `last` and `after`. -/
def Quiet (keyword after : List Char) : Option Char → List Char → Prop
  | _, [] => True
  | last, x :: t => ¬ Opens keyword last (x :: (t ++ after)) ∧ Quiet keyword after (some x) t

/-- A text of words other than the keyword, and of characters between words. -/
inductive Avoids (keyword : List Char) : List Char → Prop
  | nil : Avoids keyword []
  | gap {x : Char} {t : List Char} (hx : isWord x = false) (h : Avoids keyword t) : Avoids keyword (x :: t)
  | word {w t : List Char} (hw : ∀ c ∈ w, isWord c = true) (hne : w ≠ keyword)
      (ht : StopsWord t) (h : Avoids keyword t) : Avoids keyword (w ++ t)

variable {keyword after : List Char} {last : Option Char}

theorem Avoids.gaps {s t : List Char} (hs : ∀ c ∈ s, isWord c = false) (h : Avoids keyword t) :
    Avoids keyword (s ++ t) := by
  induction s with
  | nil => exact h
  | cons x s ih =>
    obtain ⟨hx, hs⟩ := List.forall_mem_cons.mp hs
    exact .gap hx (ih hs)

theorem quiet_append {a b : List Char} : Quiet keyword after last (a ++ b) ↔
    Quiet keyword (b ++ after) last a ∧ Quiet keyword after (Cursor.lastOf last a) b := by
  induction a generalizing last with
  | nil => exact ⟨fun h => ⟨trivial, h⟩, fun h => h.2⟩
  | cons x a ih =>
    rw [List.cons_append, Quiet, ih, List.append_assoc, ← and_assoc]
    rfl

/-- Nothing is opened within a word. -/
theorem quiet_of_word {x : Char} {w : List Char} (hx : isWord x = true) (hw : ∀ c ∈ w, isWord c = true) :
    Quiet keyword after (some x) w := by
  induction w generalizing x with
  | nil => trivial
  | cons y w ih =>
    obtain ⟨hy, hw⟩ := List.forall_mem_cons.mp hw
    refine ⟨?_, ih hy hw⟩
    rintro ⟨hlast, -⟩
    simp [hx] at hlast

section Keyword

variable (hkeyword : ∀ c ∈ keyword, isWord c = true)
include hkeyword

/-- A keyword does not begin with a character between words. -/
theorem not_opens_of_gap {x : Char} {t : List Char} (hx : isWord x = false) (hne : keyword ≠ []) :
    ¬ Opens keyword last (x :: t) := by
  rintro ⟨-, b, xs, -, heq⟩
  obtain ⟨y, ys, rfl⟩ := List.exists_cons_of_ne_nil hne
  obtain ⟨rfl, -⟩ := List.cons.inj heq
  simp [hx] at hkeyword

/-- A keyword opens nothing between words. -/
theorem quiet_of_gaps {t : List Char} (ht : ∀ c ∈ t, isWord c = false) (hne : keyword ≠ []) :
    Quiet keyword after last t := by
  induction t generalizing last with
  | nil => trivial
  | cons x t ih =>
    obtain ⟨hx, ht⟩ := List.forall_mem_cons.mp ht
    exact ⟨not_opens_of_gap hkeyword hx hne, ih ht⟩

/-- A keyword does not begin where another word stands. -/
theorem not_opens_of_word {w : List Char} (hw : ∀ c ∈ w, isWord c = true) (hne : w ≠ keyword)
    (hafter : StopsWord after) : ¬ Opens keyword last (w ++ after) := by
  rintro ⟨-, b, xs, hb, heq⟩
  have hrest : StopsWord (b :: xs) := stopsWord_cons (isWord_of_isBlank hb)
  exact hne (eq_of_append_eq hw hkeyword hafter hrest heq)

/-- **A text that avoids the keyword is quiet**, whatever stands before it and if it is no part of a word what stands
behind it. -/
theorem Avoids.quiet {t : List Char} (h : Avoids keyword t) (hne : keyword ≠ [])
    (hafter : StopsWord after) : Quiet keyword after last t := by
  induction h generalizing last with
  | nil => trivial
  | @gap x t hx _ ih => exact ⟨not_opens_of_gap hkeyword hx hne, ih⟩
  | @word w t hw hother ht _ ih =>
    have hbehind : StopsWord (t ++ after) := by
      cases t with
      | nil => exact hafter
      | cons y t => exact ht
    refine quiet_append.mpr ⟨?_, ih⟩
    cases w with
    | nil => trivial
    | cons y w =>
      obtain ⟨hy, hrest⟩ := List.forall_mem_cons.mp hw
      exact ⟨not_opens_of_word hkeyword hw hother hbehind, quiet_of_word hy hrest⟩

end Keyword

/-! ## Other quiet texts -/

/-- A text without white space is quiet if a character follows that is neither white space nor part of the keyword. -/
theorem quiet_of_not_isBlank {t : List Char} {q : Char} {xs : List Char} (ht : ∀ c ∈ t, isBlank c = false)
    (hq : isBlank q = false) (hkeyword : q ∉ keyword) : Quiet keyword (q :: xs) last t := by
  induction t generalizing last with
  | nil => trivial
  | cons x t ih =>
    refine ⟨?_, ih (List.forall_mem_cons.mp ht).2⟩
    rintro ⟨-, b, ys, hb, heq⟩
    have hmem : q ∈ x :: t ++ [q] := List.mem_append_right _ List.mem_cons_self
    have hnone : ∀ c ∈ x :: t ++ [q], isBlank c = false := by
      rw [List.forall_mem_append, List.forall_mem_singleton]
      exact ⟨ht, hq⟩
    have hsplit : (x :: t ++ [q]) ++ xs = keyword ++ b :: ys := by simpa using heq
    -- The white space would have to stand behind `q`, and then the keyword goes to `q` at least.
    rcases List.append_eq_append_iff.mp hsplit with ⟨d, hd, -⟩ | ⟨d, hd, hmore⟩
    · exact hkeyword (hd ▸ List.mem_append_left d hmem)
    · cases d with
      | nil =>
        rw [List.append_nil] at hd
        exact hkeyword (hd ▸ hmem)
      | cons e d =>
        obtain ⟨rfl, -⟩ := List.cons.inj hmore
        rw [hnone b (hd ▸ List.mem_append_right _ List.mem_cons_self)] at hb
        cases hb

/-! ## Texts in which a word does not occur -/

/-- A text that stands in front of a character which it does not have, or of nothing, stands before the character. -/
theorem prefix_of_prefix_append {w line after : List Char} {x : Char} (hw : x ∉ w) (hafter : ∀ c ∈ after.head?, c = x)
    (h : w <+: line ++ after) : w <+: line := by
  obtain ⟨rest, hrest⟩ := h
  rcases List.append_eq_append_iff.mp hrest with ⟨d, hline, -⟩ | ⟨d, hd, hmore⟩
  · exact ⟨d, hline.symm⟩
  · cases d with
    | nil => exact ⟨[], by rw [hd, List.append_nil, List.append_nil]⟩
    | cons e d =>
      have he : e = x := hafter e (by rw [hmore]; rfl)
      exact absurd (hd ▸ he ▸ List.mem_append_right _ List.mem_cons_self) hw

/-- A word does not go over a character that it does not have. -/
theorem occurs_append_cons {word s t : List Char} {x : Char} (hx : x ∉ word) :
    occurs word (s ++ x :: t) = (occurs word s || occurs word t) := by
  induction s with
  | nil =>
    cases word with
    | nil => rfl
    | cons y word =>
      have hne : (y == x) = false := by simpa using fun heq : y = x => hx (heq ▸ List.mem_cons_self)
      simp [occurs, List.isPrefixOf, hne]
  | cons c s ih =>
    have hprefix : word.isPrefixOf (c :: (s ++ x :: t)) = word.isPrefixOf (c :: s) := by
      rw [Bool.eq_iff_iff, List.isPrefixOf_iff_prefix, List.isPrefixOf_iff_prefix]
      have hstop : ∀ c ∈ (x :: t).head?, c = x := fun c hc => (Option.some.inj hc).symm
      have hback : word <+: (c :: s) ++ x :: t → word <+: c :: s := prefix_of_prefix_append hx hstop
      exact ⟨hback, fun h => h.trans (List.prefix_append (c :: s) _)⟩
    rw [List.cons_append, occurs, occurs, hprefix, ih, Bool.or_assoc]

/-- The word begins nowhere in the text, which stands before `after`. -/
def Clear (word after : List Char) : List Char → Prop
  | [] => True
  | x :: t => ¬ word <+: x :: (t ++ after) ∧ Clear word after t

theorem clear_append {word s t : List Char} :
    Clear word after (s ++ t) ↔ Clear word (t ++ after) s ∧ Clear word after t := by
  induction s with
  | nil => exact ⟨fun h => ⟨trivial, h⟩, fun h => h.2⟩
  | cons x s ih => rw [List.cons_append, Clear, ih, List.append_assoc, ← and_assoc, Clear]

/-- A word that does not occur in a text begins nowhere in it, if a character follows that the word does not have. -/
theorem clear_of_not_occurs {word t : List Char} {x : Char} (ht : occurs word t = false) (hx : x ∉ word)
    (hafter : ∀ c ∈ after.head?, c = x) : Clear word after t := by
  induction t with
  | nil => trivial
  | cons y t ih =>
    rw [occurs, Bool.or_eq_false_iff] at ht
    refine ⟨?_, ih ht.2⟩
    intro hprefix
    have hwithin : word <+: y :: t := prefix_of_prefix_append hx hafter hprefix
    rw [List.isPrefixOf_iff_prefix.mpr hwithin] at ht
    cases ht.1

/-- A word begins with its first character. -/
theorem clear_of_notMem {word t : List Char} {x : Char} (hx : x ∉ t) : Clear (x :: word) after t := by
  induction t with
  | nil => trivial
  | cons y t ih =>
    rw [List.mem_cons, not_or] at hx
    refine ⟨fun hprefix => hx.1 (List.cons_prefix_cons.mp hprefix).1, ih hx.2⟩

/-- A keyword opens nothing where it does not begin. -/
theorem Clear.quiet {t : List Char} (h : Clear keyword after t) : Quiet keyword after last t := by
  induction t generalizing last with
  | nil => trivial
  | cons x t ih =>
    refine ⟨?_, ih h.2⟩
    rintro ⟨-, b, xs, -, heq⟩
    exact h.1 ⟨b :: xs, heq.symm⟩

/-- A line is quiet in which the keyword does not occur. -/
theorem quiet_of_not_occurs {t : List Char} (ht : occurs keyword t = false) (hkeyword : '\n' ∉ keyword)
    (hafter : ∀ c ∈ after.head?, c = '\n') : Quiet keyword after last t :=
  (clear_of_not_occurs ht hkeyword hafter).quiet

end Conformance.Text
