import Conformance.Check.Operations
import Conformance.Proofs.Pattern.Recognition
import Conformance.Proofs.Rule.Lexeme
import Mathlib.Data.List.Infix

/-!
# Phrases of code

A phrase is one of several words, or a call of a name. The patterns of operations recognize phrases (`recognizes_call`,
`recognizes_member`), and that the texts of a phrase stand apart can be computed (`Phrase.apart`).
-/

namespace Conformance

open Pattern

/-- What code can be searched for. -/
inductive Phrase where
  /-- One of these words. -/
  | words (ws : List String)
  /-- A name, any white space and an opening parenthesis. -/
  | call (name : String)

namespace Phrase

/-- The texts of a phrase. -/
def Spells : Phrase → List Char → Prop
  | words ws, t => ∃ w ∈ ws, t = w.toList
  | call name, t => ∃ gap, (∀ x ∈ gap, Text.isBlank x = true) ∧ t = name.toList ++ (gap ++ ['('])

/-! ## Texts that stand apart -/

/-- No end of a word agrees with a word, unless both are the same word. -/
def areApart (ws : List String) : Bool :=
  ws.all fun w => !w.toList.isEmpty && ws.all fun v => w.toList.tails.all fun b =>
    b.isEmpty || !(b.isPrefixOf v.toList || v.toList.isPrefixOf b) || b == w.toList && b == v.toList

/-- The first character of a name is not in its rest, and it is no white space and no parenthesis. -/
def opensOnce (name : String) : Bool :=
  name.toList.head?.any fun x => !name.toList.tail.contains x && !Text.isBlank x && x != '('

theorem apart_words {ws : List String} (h : areApart ws = true) : Apart (words ws).Spells := by
  rw [areApart, List.all_eq_true] at h
  constructor
  · rintro ⟨w, hw, hnil⟩
    have hword := h w hw
    simp [← hnil] at hword
  · rintro a b t ⟨w, hw, hab⟩ hb ⟨v, hv, rfl⟩ hagree
    have hword := h w hw
    rw [Bool.and_eq_true, List.all_eq_true] at hword
    have hend := List.all_eq_true.mp (hword.2 v hv) b ((List.mem_tails b w.toList).mpr ⟨a, hab⟩)
    simp only [Bool.or_eq_true, Bool.not_eq_true', Bool.or_eq_false_iff, Bool.and_eq_true, List.isEmpty_iff, beq_iff_eq,
      hb, false_or] at hend
    rcases hend with ⟨hno, hno'⟩ | ⟨rfl, hsame⟩
    · rcases hagree with hprefix | hprefix
      · rw [List.isPrefixOf_iff_prefix.mpr hprefix] at hno
        cases hno
      · rw [List.isPrefixOf_iff_prefix.mpr hprefix] at hno'
        cases hno'
    · exact ⟨List.append_left_eq_self.mp hab, hsame⟩

/-- White space before a parenthesis is as long as it is in any longer text. -/
theorem eq_nil_of_gap {gap gap' u : List Char} (hgap : ∀ x ∈ gap, Text.isBlank x = true)
    (hgap' : ∀ x ∈ gap', Text.isBlank x = true) (h : gap ++ ['('] ++ u = gap' ++ ['(']) : u = [] := by
  have hparenthesis : ∀ rest, ∀ x ∈ ('(' :: rest : List Char).head?, Text.isBlank x = false := by
    intro rest x hx
    obtain rfl := Option.some.inj hx
    decide
  have hsame : gap = gap' := by
    rw [← Lexeme.takeWhile_of_stop hgap (hparenthesis u), ← Lexeme.takeWhile_of_stop hgap' (hparenthesis []), ← h,
      List.append_assoc, List.singleton_append]
  rw [hsame] at h
  exact List.append_right_eq_self.mp h

theorem apart_call {name : String} (h : opensOnce name = true) : Apart (call name).Spells := by
  obtain ⟨x, hx, hopening⟩ := (Option.any_eq_true _ _).mp h
  obtain ⟨xs, hname⟩ : ∃ xs, name.toList = x :: xs := List.head?_eq_some_iff.mp hx
  simp only [hname, List.tail_cons, Bool.and_eq_true, Bool.not_eq_true', List.contains_eq_mem, decide_eq_false_iff_not,
    bne_iff_ne] at hopening
  obtain ⟨⟨hxs, hblank⟩, hparenthesis⟩ := hopening
  refine .of_opening (x := x) ?_ ?_
  · rintro t ⟨gap, hgap, rfl⟩
    refine ⟨xs ++ (gap ++ ['(']), by rw [hname, List.cons_append], ?_⟩
    have hnotMem : x ∉ gap := fun hmem => by simp [hgap x hmem] at hblank
    simp [hxs, hnotMem, hparenthesis]
  · rintro t u ⟨gap, hgap, rfl⟩ ⟨gap', hgap', heq⟩
    rw [List.append_assoc] at heq
    exact eq_nil_of_gap hgap hgap' (List.append_cancel_left heq)

/-- A test for phrases whose texts stand apart. -/
def standsApart : Phrase → Bool
  | words ws => areApart ws
  | call name => opensOnce name

theorem apart {f : Phrase} (h : f.standsApart = true) : Apart f.Spells := by
  cases f with
  | words ws => exact apart_words h
  | call name => exact apart_call h

/-! ## Patterns for phrases -/

/-- A pattern for the phrase. -/
def pattern : Phrase → Pattern
  | words ws => oneOf (ws.map text)
  | call name => Operation.call name

theorem recognizes_word (w : String) : (text w).Recognizes (words [w]).Spells := by
  refine ⟨plain_text w, fun t => ?_⟩
  rw [fits_text]
  simp [Spells]

theorem recognizes_either (v w : String) : (alt (text v) (text w)).Recognizes (words [v, w]).Spells := by
  refine ⟨⟨plain_text v, plain_text w⟩, fun t => ?_⟩
  rw [fits_alt, fits_text, fits_text]
  simp [Spells]

theorem recognizes_call (name : String) : (Operation.call name).Recognizes (call name).Spells := by
  constructor
  · simp [Operation.call]
  · intro t
    simp only [Operation.call, fits_inOrder_cons, fits_inOrder_nil, fits_text, fits_blanks, fits_char]
    constructor
    · rintro ⟨_, _, rfl, rfl, gap, _, rfl, ⟨-, hgap⟩, _, _, rfl, ⟨x, rfl, hx⟩, rfl⟩
      obtain rfl : x = '(' := by simpa using hx
      exact ⟨gap, hgap, rfl⟩
    · rintro ⟨gap, hgap, rfl⟩
      exact ⟨_, _, rfl, rfl, gap, _, rfl, ⟨Nat.zero_le _, hgap⟩, _, [], rfl, ⟨'(', rfl, rfl⟩, rfl⟩

theorem recognizes_member (object : String) (names : List String) :
    (Operation.member object names).Recognizes (words (names.map fun name => object ++ "." ++ name)).Spells := by
  constructor
  · simp [Operation.member]
  · intro t
    simp only [Operation.member, fits_inOrder_cons, fits_inOrder_nil, fits_text, fits_char, fits_oneOf]
    constructor
    · rintro ⟨_, _, rfl, rfl, _, _, rfl, ⟨x, rfl, hx⟩, _, _, rfl, ⟨p, hp, hname⟩, rfl⟩
      obtain rfl : x = '.' := by simpa using hx
      obtain ⟨name, hmem, rfl⟩ := List.mem_map.mp hp
      rw [fits_text] at hname
      exact ⟨_, List.mem_map_of_mem hmem, by simp [hname]⟩
    · rintro ⟨w, hw, rfl⟩
      obtain ⟨name, hmem, rfl⟩ := List.mem_map.mp hw
      have hname : (text name).Fits name.toList := fits_text.mpr rfl
      exact ⟨object.toList, '.' :: name.toList, by simp, rfl, ['.'], name.toList, rfl, ⟨'.', rfl, rfl⟩, name.toList, [],
        by simp, ⟨_, List.mem_map_of_mem hmem, hname⟩, rfl⟩

theorem recognizes_words (ws : List String) : (oneOf (ws.map text)).Recognizes (words ws).Spells := by
  constructor
  · simp
  · intro t
    simp [fits_oneOf, fits_text, Spells]

theorem recognizes_pattern (f : Phrase) : f.pattern.Recognizes f.Spells := by
  cases f with
  | words ws => exact recognizes_words ws
  | call name => exact recognizes_call name

/-! ## Uses -/

/-- The places at which the phrase is used in a text. -/
def uses (f : Phrase) (text : List Char) : List Span := (f.pattern.scan text).map (·.whole)

variable {f : Phrase} (hapart : Apart f.Spells)
include hapart

theorem areOccurrences_uses (text : List Char) : AreOccurrences f.Spells text (f.uses text) :=
  f.recognizes_pattern.areOccurrences_scan hapart text

/-- Every pattern that recognizes the phrase finds its uses. -/
theorem map_whole_scan {p : Pattern} (hp : p.Recognizes f.Spells) (text : List Char) :
    (p.scan text).map (·.whole) = f.uses text :=
  (hp.areOccurrences_scan hapart text).unique (areOccurrences_uses hapart text)

end Phrase

end Conformance
