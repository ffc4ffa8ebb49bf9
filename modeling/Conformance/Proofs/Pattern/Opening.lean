import Conformance.Proofs.Pattern.Reach

/-!
# How matches begin

A match of a pattern that is not nullable has at least one character, and the first of them is one that the pattern
opens with (`exists_opening_of_mem_ends`). So nothing is matched where the text goes on with another character
(`ends_eq_nil`), and every match of a scan starts at a character of the text (`start_lt_of_mem_scan`).
-/

namespace Conformance.Pattern

/-- Whether the pattern may match the empty piece. -/
def isNullable : Pattern → Bool
  | empty => true
  | char _ => false
  | seq p q => p.isNullable && q.isNullable
  | alt p q => p.isNullable || q.isNullable
  | run _ least _ => least == 0
  | mark p => p.isNullable
  | wordEdge => true
  | lineStart => true

/-- Whether a match may begin with the character `x`. -/
def OpensWith (x : Char) : Pattern → Prop
  | char test => test x = true
  | seq p q => p.OpensWith x ∨ p.isNullable = true ∧ q.OpensWith x
  | alt p q => p.OpensWith x ∨ q.OpensWith x
  | run _ _ test => ∃ xs, test (x :: xs) = true
  | mark p => p.OpensWith x
  | _ => False

/-! ## Ends -/

section Ends

variable {c d : Cursor}

/-- Leaving out the nearest `n` places that a run may reach leaves those behind at least `n` characters. -/
theorem le_offset_of_mem_drop_stops {test : List Char → Bool} {n : Nat} {last : Option Char} {offset : Nat}
    {marked : Option Span} {xs : List Char} (h : d ∈ (stops test last offset marked xs).drop n) :
    offset + n ≤ d.offset := by
  induction n generalizing last offset xs with
  | zero =>
    obtain ⟨t, hreach, -⟩ := exists_of_mem_stops (P := fun _ => True) h
    exact hreach.offset ▸ Nat.le_add_right _ _
  | succ n ih =>
    cases xs with
    | nil => simp [stops] at h
    | cons x xs =>
      rw [stops, List.drop_succ_cons] at h
      by_cases hx : test (x :: xs) = true
      · rw [if_pos hx] at h
        have := ih h
        omega
      · simp [hx] at h

/-- **How a match begins**: with a character that the pattern opens with, unless it is empty, for which the pattern
has to be nullable. -/
theorem exists_opening_of_mem_ends {p : Pattern} (h : d ∈ p.ends c) :
    ∃ t, c.Reaches t d ∧ (t = [] → p.isNullable = true) ∧ ∀ x u, t = x :: u → p.OpensWith x := by
  induction p generalizing c d with
  | empty =>
    obtain rfl := List.mem_singleton.mp h
    exact ⟨[], .refl _, fun _ => rfl, fun x u hnil => (List.cons_ne_nil x u hnil.symm).elim⟩
  | char test =>
    rw [ends] at h
    split at h
    · cases h
    · rename_i x xs hrest
      obtain ⟨hx, h⟩ := List.mem_ite_nil_right.mp h
      obtain rfl := List.mem_singleton.mp h
      refine ⟨[x], ⟨hrest, rfl⟩, fun hnil => (List.cons_ne_nil x [] hnil).elim, fun y u hyu => ?_⟩
      obtain ⟨rfl, -⟩ := List.cons.inj hyu
      exact hx
  | seq p q ihp ihq =>
    obtain ⟨e, he, hd⟩ := List.mem_flatMap.mp h
    obtain ⟨t, ht, hnull, hopen⟩ := ihp he
    obtain ⟨u, hu, hnull', hopen'⟩ := ihq hd
    refine ⟨t ++ u, ht.trans hu, fun hnil => ?_, fun x w hxw => ?_⟩
    · obtain ⟨rfl, rfl⟩ := List.append_eq_nil_iff.mp hnil
      simp [isNullable, hnull rfl, hnull' rfl]
    · cases t with
      | nil => exact .inr ⟨hnull rfl, hopen' x w hxw⟩
      | cons y t =>
        obtain ⟨rfl, -⟩ := List.cons.inj hxw
        exact .inl (hopen y t rfl)
  | alt p q ihp ihq =>
    rcases List.mem_append.mp h with h | h
    · obtain ⟨t, ht, hnull, hopen⟩ := ihp h
      exact ⟨t, ht, fun hnil => by simp [isNullable, hnull hnil], fun x u hxu => .inl (hopen x u hxu)⟩
    · obtain ⟨t, ht, hnull, hopen⟩ := ihq h
      exact ⟨t, ht, fun hnil => by simp [isNullable, hnull hnil], fun x u hxu => .inr (hopen x u hxu)⟩
  | run greedy least test =>
    have hdrop : d ∈ (stops test c.last c.offset c.marked c.rest).drop least := by
      cases greedy <;> simpa [ends, runEnds] using h
    have hlen := le_offset_of_mem_drop_stops hdrop
    obtain ⟨t, ht, -, hP⟩ := exists_of_mem_stops (P := fun x => ∃ ys, test (x :: ys) = true) (List.mem_of_mem_drop hdrop)
    refine ⟨t, ht, fun hnil => ?_, fun x u hxu => ?_⟩
    · have hoffset := ht.offset
      simp only [hnil, List.length_nil] at hoffset
      rw [isNullable, beq_iff_eq]
      omega
    · exact hP (fun y ys hy => ⟨ys, hy⟩) x (hxu ▸ List.mem_cons_self)
  | mark p ih =>
    obtain ⟨e, he, rfl⟩ := List.mem_map.mp h
    obtain ⟨t, ht, hnull, hopen⟩ := ih he
    exact ⟨t, ⟨ht.rest, ht.offset⟩, hnull, hopen⟩
  | wordEdge =>
    obtain rfl := List.mem_singleton.mp (List.mem_ite_nil_right.mp h).2
    exact ⟨[], .refl _, fun _ => rfl, fun x u hnil => (List.cons_ne_nil x u hnil.symm).elim⟩
  | lineStart =>
    obtain rfl := List.mem_singleton.mp (List.mem_ite_nil_right.mp h).2
    exact ⟨[], .refl _, fun _ => rfl, fun x u hnil => (List.cons_ne_nil x u hnil.symm).elim⟩

/-- Nothing is matched before a character that the pattern does not open with. -/
theorem ends_eq_nil {p : Pattern} (hp : p.isNullable = false) {x : Char} (hx : ¬ p.OpensWith x)
    (hc : c.rest.head? = some x) : p.ends c = [] := by
  rw [List.eq_nil_iff_forall_not_mem]
  intro d hd
  obtain ⟨t, ht, hnull, hopen⟩ := exists_opening_of_mem_ends hd
  cases t with
  | nil => simp [hnull rfl] at hp
  | cons y t =>
    rw [ht.rest, List.cons_append, List.head?_cons, Option.some.injEq] at hc
    exact hx (hopen x t (hc ▸ rfl))

/-- A pattern that is not nullable never matches the empty piece. -/
theorem whole_ne_nil_of_matchAt? {p : Pattern} (hp : p.isNullable = false) {m : Match} (hm : p.matchAt? c = some m) :
    m.whole.text ≠ [] := by
  obtain ⟨d, hd, rfl⟩ := exists_of_matchAt? hm
  obtain ⟨t, ht, hnull, -⟩ := exists_opening_of_mem_ends hd
  rw [ht.upTo_eq]
  intro hnil
  rw [hnull hnil] at hp
  cases hp

end Ends

/-! ## Scans -/

/-- **A match is a piece of the text**, and not an empty one unless the pattern is nullable. -/
theorem exists_around_of_mem_scan {p : Pattern} {text : List Char} {m : Match} (h : m ∈ p.scan text) :
    ∃ before after, text = before ++ (m.whole.text ++ after) ∧ m.whole.start = before.length ∧
      (m.whole.text = [] → p.isNullable = true) := by
  obtain ⟨c, u, -, -, hm, htext, hoffset⟩ := foundIn_of_mem_scanFrom h
  obtain ⟨d, hd, rfl⟩ := exists_of_matchAt? hm
  obtain ⟨t, ht, hnull, -⟩ := exists_opening_of_mem_ends hd
  have hwhole : c.upTo d = ⟨c.offset, t⟩ := ht.upTo_eq
  refine ⟨u, d.rest, ?_, ?_, ?_⟩
  · rw [hwhole, ← ht.rest, htext]
  · rw [hwhole, hoffset, Nat.zero_add]
  · rw [hwhole]
    exact hnull

/-- A match that is not empty starts at a character of the text. -/
theorem start_lt_of_mem_scan {p : Pattern} (hp : p.isNullable = false) {text : List Char} {m : Match}
    (h : m ∈ p.scan text) : m.whole.start < text.length := by
  obtain ⟨before, after, htext, hstart, hnull⟩ := exists_around_of_mem_scan h
  have hne : m.whole.text ≠ [] := fun hnil => by simp [hnull hnil] at hp
  have hpos := List.length_pos_iff.mpr hne
  rw [htext, hstart]
  simp only [List.length_append]
  omega

/-! ## Composed patterns -/

section Composed

variable (x : Char)

@[simp] theorem isNullable_inOrder (ps : List Pattern) : (inOrder ps).isNullable = ps.all isNullable := by
  induction ps with
  | nil => rfl
  | cons p ps ih =>
    rw [List.all_cons, ← ih]
    rfl

@[simp] theorem isNullable_oneOf (ps : List Pattern) : (oneOf ps).isNullable = ps.any isNullable := by
  induction ps with
  | nil => rfl
  | cons p ps ih =>
    rw [List.any_cons, ← ih]
    rfl

@[simp] theorem isNullable_spell (test : Char → Char → Bool) (s : String) :
    (spell test s).isNullable = s.toList.isEmpty := by
  rw [spell]
  cases s.toList <;> rfl

@[simp] theorem isNullable_text (s : String) : (text s).isNullable = s.toList.isEmpty := isNullable_spell _ s

@[simp] theorem isNullable_anyCase (s : String) : (anyCase s).isNullable = s.toList.isEmpty := isNullable_spell _ s

@[simp] theorem isNullable_greedily (least : Nat) (test : Char → Bool) :
    (greedily least test).isNullable = (least == 0) := rfl

@[simp] theorem isNullable_blanks (least : Nat) : (blanks least).isNullable = (least == 0) := rfl

@[simp] theorem opensWith_inOrder_cons (p : Pattern) (ps : List Pattern) :
    (inOrder (p :: ps)).OpensWith x ↔ p.OpensWith x ∨ p.isNullable = true ∧ (inOrder ps).OpensWith x := Iff.rfl

@[simp] theorem opensWith_oneOf (ps : List Pattern) : (oneOf ps).OpensWith x ↔ ∃ p ∈ ps, p.OpensWith x := by
  induction ps with
  | nil => simp [oneOf, never, OpensWith]
  | cons p ps ih =>
    simp only [List.mem_cons, exists_eq_or_imp, ← ih]
    rfl

@[simp] theorem opensWith_spell (test : Char → Char → Bool) (s : String) :
    (spell test s).OpensWith x ↔ ∃ y ∈ s.toList.head?, test y x = true := by
  rw [spell]
  cases s.toList with
  | nil => simp [OpensWith]
  | cons y ys => simp [OpensWith, isNullable]

@[simp] theorem opensWith_text (s : String) : (text s).OpensWith x ↔ s.toList.head? = some x := by
  rw [text, opensWith_spell]
  simp

@[simp] theorem opensWith_anyCase (s : String) :
    (anyCase s).OpensWith x ↔ ∃ y ∈ s.toList.head?, Text.foldCase y = Text.foldCase x := by
  rw [anyCase, opensWith_spell]
  simp

@[simp] theorem opensWith_greedily (least : Nat) (test : Char → Bool) :
    (greedily least test).OpensWith x ↔ test x = true := by
  simp [greedily, OpensWith]

@[simp] theorem opensWith_blanks (least : Nat) : (blanks least).OpensWith x ↔ Text.isBlank x = true :=
  opensWith_greedily x least _

end Composed

/-! ## Patterns that start in a line -/

/-- What the pattern matches is not empty and begins with something else than a line feed. -/
structure StartsInLine (p : Pattern) : Prop where
  notNullable : p.isNullable = false
  notLineFeed : ¬ p.OpensWith '\n'

namespace StartsInLine

section

variable {p q : Pattern}

theorem alt (hp : p.StartsInLine) (hq : q.StartsInLine) : (alt p q).StartsInLine := by
  constructor
  · rw [isNullable, hp.notNullable, hq.notNullable]
    rfl
  · exact not_or_intro hp.notLineFeed hq.notLineFeed

/-- What follows does not matter. -/
theorem inOrder (hp : p.StartsInLine) (ps : List Pattern) : (inOrder (p :: ps)).StartsInLine := by
  constructor
  · simp [hp.notNullable]
  · simp [hp.notNullable, hp.notLineFeed]

/-- A word edge in front does not matter. -/
theorem behindWordEdge {ps : List Pattern} (h : (Pattern.inOrder ps).StartsInLine) :
    (Pattern.inOrder (wordEdge :: ps)).StartsInLine := by
  constructor
  · exact h.notNullable
  · rintro (hedge | ⟨-, hrest⟩)
    · exact hedge
    · exact h.notLineFeed hrest

end

/-- Whether a word begins with a letter other than the line feed, in any case. -/
def isOpening (word : String) : Bool := word.toList.head?.any (Text.foldCase · != '\n')

theorem exists_of_isOpening {word : String} (h : isOpening word = true) :
    ∃ x xs, word.toList = x :: xs ∧ Text.foldCase x ≠ '\n' := by
  rw [isOpening] at h
  cases hw : word.toList with
  | nil => simp [hw] at h
  | cons x xs => exact ⟨x, xs, rfl, by simpa [hw] using h⟩

theorem text {word : String} (h : isOpening word = true) : (text word).StartsInLine := by
  obtain ⟨x, xs, hword, hx⟩ := exists_of_isOpening h
  have hne : x ≠ '\n' := by
    rintro rfl
    exact hx rfl
  constructor
  · simp [hword]
  · simp [hword, hne]

theorem anyCase {word : String} (h : isOpening word = true) : (anyCase word).StartsInLine := by
  obtain ⟨x, xs, hword, hx⟩ := exists_of_isOpening h
  have hlineFeed : Text.foldCase '\n' = '\n' := rfl
  constructor
  · simp [hword]
  · simpa [hword, hlineFeed] using hx

theorem oneOf {ps : List Pattern} (h : ∀ p ∈ ps, p.StartsInLine) : (oneOf ps).StartsInLine := by
  constructor
  · simpa using fun p hp => (h p hp).notNullable
  · simpa using fun p hp => (h p hp).notLineFeed

end StartsInLine

end Conformance.Pattern
