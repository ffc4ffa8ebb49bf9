import Mathlib.Data.List.Basic
import Conformance.Wildcard

/-!
# What matches a wildcard pattern

A pattern spells a text (`Spells`) if each of its characters stands for itself in the text, the stars apart, which
stand for gaps without line feeds. A candidate matches a pattern iff the pattern spells a part of it (`accepts_iff`).

- In terms of the parts of a pattern between its stars, a candidate matches iff it holds them in order, with gaps on
  one line between them (`accepts_iff_exists_gaps`).
- A longer candidate matches too; stars at the ends of a pattern and repeated stars do not matter; a star in the place
  of a piece that is on one line widens the pattern (`accepts_laws`).
- A candidate holds every character of a pattern that it matches, the star apart (`mem_of_accepts`).
-/

namespace Conformance.Wildcard

/-- How a pattern spells a text: a star stands for a gap on one line, any other character for itself. -/
inductive Spells : List Char → List Char → Prop
  | nil : Spells [] []
  | gap {skipped pattern text : List Char} (hskipped : '\n' ∉ skipped) (h : Spells pattern text) :
      Spells ('*' :: pattern) (skipped ++ text)
  | char {x : Char} {pattern text : List Char} (hx : x ≠ '*') (h : Spells pattern text) :
      Spells (x :: pattern) (x :: text)

/-! ## Matching is spelling a part -/

section Matching

variable {pattern text : List Char}

/-- A gap skips a beginning of the first line. -/
theorem afterGap_iff {k : List Char → Bool} : afterGap k text = true ↔
    ∃ skipped rest, text = skipped ++ rest ∧ '\n' ∉ skipped ∧ k rest = true := by
  induction text with
  | nil =>
    constructor
    · intro h
      exact ⟨[], [], rfl, List.not_mem_nil, h⟩
    · rintro ⟨skipped, rest, heq, -, hk⟩
      obtain ⟨rfl, rfl⟩ := List.append_eq_nil_iff.mp heq.symm
      exact hk
  | cons c cs ih =>
    rw [afterGap, Bool.or_eq_true, Bool.and_eq_true, ih, bne_iff_ne]
    constructor
    · rintro (hk | ⟨hc, skipped, rest, rfl, hskipped, hk⟩)
      · exact ⟨[], c :: cs, rfl, List.not_mem_nil, hk⟩
      · refine ⟨c :: skipped, rest, rfl, ?_, hk⟩
        intro hmem
        rcases List.mem_cons.mp hmem with heq | hmem
        · exact hc heq.symm
        · exact hskipped hmem
    · rintro ⟨skipped, rest, heq, hskipped, hk⟩
      cases skipped with
      | nil => exact .inl (heq ▸ hk)
      | cons d skipped =>
        obtain ⟨rfl, rfl⟩ := List.cons.inj heq
        obtain ⟨hd, hskipped⟩ := not_or.mp (mt List.mem_cons.mpr hskipped)
        exact .inr ⟨fun h => hd h.symm, skipped, rest, rfl, hskipped, hk⟩

theorem matchesStart_iff : matchesStart pattern text = true ↔ ∃ w v, text = w ++ v ∧ Spells pattern w := by
  induction pattern generalizing text with
  | nil =>
    constructor
    · intro _
      exact ⟨[], text, rfl, .nil⟩
    · intro _
      unfold matchesStart
      rfl
  | cons p ps ih =>
    unfold matchesStart
    split
    · rename_i hp
      subst hp
      rw [afterGap_iff]
      constructor
      · rintro ⟨skipped, rest, rfl, hskipped, hrest⟩
        obtain ⟨w, v, rfl, hw⟩ := ih.mp hrest
        exact ⟨skipped ++ w, v, (List.append_assoc ..).symm, .gap hskipped hw⟩
      · rintro ⟨w, v, rfl, hw⟩
        cases hw with
        | @gap skipped _ w hskipped hw =>
          exact ⟨skipped, w ++ v, List.append_assoc .., hskipped, ih.mpr ⟨w, v, rfl, hw⟩⟩
        | char hx => exact absurd rfl hx
    · rename_i hp
      constructor
      · intro h
        cases text with
        | nil => cases h
        | cons c cs =>
          rw [Bool.and_eq_true, beq_iff_eq] at h
          obtain ⟨rfl, hrest⟩ := h
          obtain ⟨w, v, rfl, hw⟩ := ih.mp hrest
          exact ⟨p :: w, v, rfl, .char hp hw⟩
      · rintro ⟨w, v, rfl, hw⟩
        cases hw with
        | gap => exact absurd rfl hp
        | @char _ _ w _ hw => simpa using ih.mpr ⟨w, v, rfl, hw⟩

theorem matchesPart_iff : matchesPart pattern text = true ↔ ∃ u w v, text = u ++ (w ++ v) ∧ Spells pattern w := by
  induction text with
  | nil =>
    rw [matchesPart, matchesStart_iff]
    constructor
    · rintro ⟨w, v, heq, hw⟩
      exact ⟨[], w, v, heq, hw⟩
    · rintro ⟨u, w, v, heq, hw⟩
      obtain ⟨-, hwv⟩ := List.append_eq_nil_iff.mp heq.symm
      exact ⟨w, v, hwv.symm, hw⟩
  | cons c cs ih =>
    rw [matchesPart, Bool.or_eq_true, ih, matchesStart_iff]
    constructor
    · rintro (⟨w, v, heq, hw⟩ | ⟨u, w, v, rfl, hw⟩)
      · exact ⟨[], w, v, heq, hw⟩
      · exact ⟨c :: u, w, v, rfl, hw⟩
    · rintro ⟨u, w, v, heq, hw⟩
      cases u with
      | nil => exact .inl ⟨w, v, heq, hw⟩
      | cons d u =>
        obtain ⟨-, rfl⟩ := List.cons.inj heq
        exact .inr ⟨u, w, v, rfl, hw⟩

end Matching

/-- A candidate matches a pattern iff the pattern spells a part of it. -/
theorem accepts_iff {pattern candidate : String} : accepts pattern candidate = true ↔
    ∃ u w v, candidate.toList = u ++ (w ++ v) ∧ Spells pattern.toList w :=
  matchesPart_iff

/-! ## What a pattern spells -/

section Spelling

variable {p q w : List Char}

theorem Spells.append {a b : List Char} (ha : Spells p a) (hb : Spells q b) : Spells (p ++ q) (a ++ b) := by
  induction ha with
  | nil => exact hb
  | gap hskipped _ ih =>
    rw [List.append_assoc]
    exact .gap hskipped ih
  | char hx _ ih => exact .char hx ih

/-- A pattern in two pieces spells a text in two pieces. -/
theorem spells_append_iff : Spells (p ++ q) w ↔ ∃ a b, w = a ++ b ∧ Spells p a ∧ Spells q b := by
  constructor
  · intro h
    induction p generalizing w with
    | nil => exact ⟨[], w, rfl, .nil, h⟩
    | cons x p ih =>
      cases h with
      | gap hskipped h =>
        obtain ⟨a, b, rfl, ha, hb⟩ := ih h
        exact ⟨_, b, (List.append_assoc ..).symm, .gap hskipped ha, hb⟩
      | char hx h =>
        obtain ⟨a, b, rfl, ha, hb⟩ := ih h
        exact ⟨x :: a, b, rfl, .char hx ha, hb⟩
  · rintro ⟨a, b, rfl, ha, hb⟩
    exact ha.append hb

theorem spells_nil_iff : Spells [] w ↔ w = [] := by
  constructor
  · rintro ⟨⟩
    rfl
  · rintro rfl
    exact .nil

theorem spells_star_cons_iff :
    Spells ('*' :: p) w ↔ ∃ skipped rest, w = skipped ++ rest ∧ '\n' ∉ skipped ∧ Spells p rest := by
  constructor
  · intro h
    cases h with
    | gap hskipped h => exact ⟨_, _, rfl, hskipped, h⟩
    | char hx => exact absurd rfl hx
  · rintro ⟨skipped, rest, rfl, hskipped, h⟩
    exact .gap hskipped h

theorem spells_cons_iff {x : Char} (hx : x ≠ '*') : Spells (x :: p) w ↔ ∃ rest, w = x :: rest ∧ Spells p rest := by
  constructor
  · intro h
    cases h with
    | gap => exact absurd rfl hx
    | char _ h => exact ⟨_, rfl, h⟩
  · rintro ⟨rest, rfl, h⟩
    exact .char hx h

/-- A star by itself spells the texts on one line. -/
theorem spells_star_iff : Spells ['*'] w ↔ '\n' ∉ w := by
  rw [spells_star_cons_iff]
  constructor
  · rintro ⟨skipped, rest, rfl, hskipped, h⟩
    obtain rfl := spells_nil_iff.mp h
    rwa [List.append_nil]
  · intro h
    exact ⟨w, [], (List.append_nil w).symm, h, .nil⟩

/-- Two stars spell what one does. -/
theorem spells_starStar_iff : Spells ['*', '*'] w ↔ Spells ['*'] w := by
  rw [spells_star_cons_iff, spells_star_iff]
  constructor
  · rintro ⟨skipped, rest, rfl, hskipped, h⟩
    exact mt List.mem_append.mp (not_or_intro hskipped (spells_star_iff.mp h))
  · intro h
    exact ⟨w, [], (List.append_nil w).symm, h, spells_star_iff.mpr List.not_mem_nil⟩

theorem Spells.mem {x : Char} (h : Spells p w) (hx : x ∈ p) (hstar : x ≠ '*') : x ∈ w := by
  induction h with
  | nil => cases hx
  | gap _ _ ih => exact List.mem_append_right _ (ih ((List.mem_cons.mp hx).resolve_left hstar))
  | char _ _ ih =>
    rcases List.mem_cons.mp hx with rfl | hx
    · exact List.mem_cons_self
    · exact List.mem_cons_of_mem _ (ih hx)

/-- A pattern on one line spells texts on one line. -/
theorem Spells.lineFeed_notMem (h : Spells p w) (hp : '\n' ∉ p) : '\n' ∉ w := by
  induction h with
  | nil => exact hp
  | gap hskipped _ ih =>
    exact mt List.mem_append.mp (not_or_intro hskipped (ih fun h => hp (List.mem_cons_of_mem _ h)))
  | char _ _ ih =>
    obtain ⟨hx, hp⟩ := not_or.mp (mt List.mem_cons.mpr hp)
    exact mt List.mem_cons.mp (not_or_intro hx (ih hp))

end Spelling

/-- **A candidate holds every character of a pattern that it matches**, the star apart. -/
theorem mem_of_accepts {pattern candidate : String} (h : accepts pattern candidate = true) {x : Char}
    (hx : x ∈ pattern.toList) (hstar : x ≠ '*') : x ∈ candidate.toList := by
  obtain ⟨u, w, v, heq, hw⟩ := accepts_iff.mp h
  rw [heq]
  exact List.mem_append_right u (List.mem_append_left v (hw.mem hx hstar))

/-! ## Parts of a pattern -/

/-- The parts of a pattern between its stars. -/
def parts (pattern : List Char) : List (List Char) := pattern.splitOn '*'

/-- The parts in order, with the gaps between them. -/
def withGaps : List (List Char) → List (List Char) → List Char
  | part :: parts, gap :: gaps => part ++ gap ++ withGaps parts gaps
  | parts, _ => parts.flatten

/-- Gaps for some parts: one between each two of them, each on one line. -/
structure Gaps (parts gaps : List (List Char)) : Prop where
  length : parts.length = gaps.length + 1
  onOneLine : ∀ gap ∈ gaps, '\n' ∉ gap

theorem parts_nil : parts [] = [[]] := rfl

theorem parts_star (pattern : List Char) : parts ('*' :: pattern) = [] :: parts pattern := by
  simp [parts, List.splitOn_cons_eq_if_modifyHead]

theorem parts_cons {x : Char} (hx : x ≠ '*') (pattern : List Char) :
    parts (x :: pattern) = (parts pattern).modifyHead (x :: ·) := by
  simp [parts, List.splitOn_cons_eq_if_modifyHead, hx]

theorem exists_parts_eq (pattern : List Char) : ∃ part rest, parts pattern = part :: rest := by
  induction pattern with
  | nil => exact ⟨[], [], rfl⟩
  | cons x pattern ih =>
    by_cases hx : x = '*'
    · subst hx
      exact ⟨[], parts pattern, parts_star pattern⟩
    · obtain ⟨part, rest, heq⟩ := ih
      exact ⟨x :: part, rest, by rw [parts_cons hx, heq, List.modifyHead_cons]⟩

/-- **A pattern spells its parts with gaps between them.** -/
theorem spells_iff_exists_gaps {pattern w : List Char} :
    Spells pattern w ↔ ∃ gaps, Gaps (parts pattern) gaps ∧ w = withGaps (parts pattern) gaps := by
  induction pattern generalizing w with
  | nil =>
    rw [spells_nil_iff, parts_nil]
    constructor
    · rintro rfl
      exact ⟨[], ⟨rfl, List.forall_mem_nil _⟩, rfl⟩
    · rintro ⟨gaps, hgaps, rfl⟩
      have hlength := hgaps.length
      obtain rfl : gaps = [] := List.length_eq_zero_iff.mp (by simpa using hlength)
      rfl
  | cons x pattern ih =>
    by_cases hx : x = '*'
    · subst hx
      rw [spells_star_cons_iff, parts_star]
      constructor
      · rintro ⟨skipped, rest, rfl, hskipped, hrest⟩
        obtain ⟨gaps, hgaps, rfl⟩ := ih.mp hrest
        refine ⟨skipped :: gaps, ⟨?_, ?_⟩, rfl⟩
        · rw [List.length_cons, List.length_cons, hgaps.length]
        · exact List.forall_mem_cons.mpr ⟨hskipped, hgaps.onOneLine⟩
      · rintro ⟨gaps, hgaps, rfl⟩
        obtain ⟨part, rest, hparts⟩ := exists_parts_eq pattern
        cases gaps with
        | nil => simpa [hparts] using hgaps.length
        | cons gap gaps =>
          obtain ⟨hgap, hgaps'⟩ := List.forall_mem_cons.mp hgaps.onOneLine
          refine ⟨gap, _, rfl, hgap, ih.mpr ⟨gaps, ⟨?_, hgaps'⟩, rfl⟩⟩
          exact Nat.succ.inj hgaps.length
    · obtain ⟨part, rest, hparts⟩ := exists_parts_eq pattern
      rw [spells_cons_iff hx, parts_cons hx]
      rw [hparts] at ih ⊢
      have hcons : ∀ gaps, withGaps ((x :: part) :: rest) gaps = x :: withGaps (part :: rest) gaps := by
        intro gaps
        cases gaps <;> rfl
      constructor
      · rintro ⟨text, rfl, htext⟩
        obtain ⟨gaps, hgaps, rfl⟩ := ih.mp htext
        exact ⟨gaps, ⟨hgaps.length, hgaps.onOneLine⟩, (hcons gaps).symm⟩
      · rintro ⟨gaps, hgaps, rfl⟩
        exact ⟨_, hcons gaps, ih.mpr ⟨gaps, ⟨hgaps.length, hgaps.onOneLine⟩, rfl⟩⟩

/-- **A candidate matches a pattern iff it holds the parts of the pattern in order, with gaps on one line between
them.** -/
theorem accepts_iff_exists_gaps (pattern candidate : String) : accepts pattern candidate = true ↔
    ∃ u gaps v, Gaps (parts pattern.toList) gaps ∧
      candidate.toList = u ++ withGaps (parts pattern.toList) gaps ++ v := by
  rw [accepts_iff]
  constructor
  · rintro ⟨u, w, v, heq, hw⟩
    obtain ⟨gaps, hgaps, rfl⟩ := spells_iff_exists_gaps.mp hw
    exact ⟨u, gaps, v, hgaps, by rw [heq, List.append_assoc]⟩
  · rintro ⟨u, gaps, v, hgaps, heq⟩
    refine ⟨u, _, v, ?_, spells_iff_exists_gaps.mpr ⟨gaps, hgaps, rfl⟩⟩
    rw [heq, List.append_assoc]

/-- The gap of the first star has to reach beyond the first `b`, on one line. -/
example : accepts "a*bc" "[ab bc]" = true ∧ accepts "a*bc" "[a\nbc]" = false := by decide +kernel

/-! ## Laws of matching -/

section Laws

variable {p q x c : String}

/-- A candidate matches whatever pattern spells a part of all that a pattern spells which it matches. -/
theorem accepts_of_spells (h : ∀ w, Spells p.toList w → ∃ u w' v, w = u ++ (w' ++ v) ∧ Spells q.toList w')
    (hc : accepts p c = true) : accepts q c = true := by
  obtain ⟨u, w, v, heq, hw⟩ := accepts_iff.mp hc
  obtain ⟨u', w', v', rfl, hw'⟩ := h w hw
  refine accepts_iff.mpr ⟨u ++ u', w', v' ++ v, ?_, hw'⟩
  rw [heq]
  simp only [List.append_assoc]

/-- More text around a candidate does not matter. -/
theorem accepts_append (u v : String) (hc : accepts p c = true) : accepts p (u ++ c ++ v) = true := by
  obtain ⟨u', w, v', heq, hw⟩ := accepts_iff.mp hc
  refine accepts_iff.mpr ⟨u.toList ++ u', w, v' ++ v.toList, ?_, hw⟩
  rw [String.toList_append, String.toList_append, heq]
  simp only [List.append_assoc]

/-- A star in front does not matter. -/
theorem accepts_star_append (p c : String) : accepts ("*" ++ p) c = accepts p c := by
  have hstar : ("*" ++ p).toList = '*' :: p.toList := by
    rw [String.toList_append]
    rfl
  rw [Bool.eq_iff_iff]
  constructor
  · apply accepts_of_spells
    intro w hw
    rw [hstar] at hw
    obtain ⟨skipped, rest, rfl, -, hrest⟩ := spells_star_cons_iff.mp hw
    exact ⟨skipped, rest, [], by rw [List.append_nil], hrest⟩
  · apply accepts_of_spells
    intro w hw
    refine ⟨[], w, [], (List.append_nil w).symm, ?_⟩
    rw [hstar]
    exact .gap List.not_mem_nil hw

/-- A star behind does not matter. -/
theorem accepts_append_star (p c : String) : accepts (p ++ "*") c = accepts p c := by
  have hstar : (p ++ "*").toList = p.toList ++ ['*'] := String.toList_append
  rw [Bool.eq_iff_iff]
  constructor
  · apply accepts_of_spells
    intro w hw
    rw [hstar] at hw
    obtain ⟨a, b, rfl, ha, -⟩ := spells_append_iff.mp hw
    exact ⟨[], a, b, rfl, ha⟩
  · apply accepts_of_spells
    intro w hw
    refine ⟨[], w, [], (List.append_nil w).symm, ?_⟩
    rw [hstar, ← List.append_nil w]
    exact hw.append (spells_star_iff.mpr List.not_mem_nil)

/-- **A piece of a pattern may be replaced** by one that spells all that it spells. -/
theorem accepts_of_piece {y : String} (h : ∀ w, Spells x.toList w → Spells y.toList w)
    (hc : accepts (p ++ x ++ q) c = true) : accepts (p ++ y ++ q) c = true := by
  refine accepts_of_spells ?_ hc
  intro w hw
  simp only [String.toList_append] at hw ⊢
  obtain ⟨ab, d, rfl, hab, hd⟩ := spells_append_iff.mp hw
  obtain ⟨a, b, rfl, ha, hb⟩ := spells_append_iff.mp hab
  exact ⟨[], _, [], (List.append_nil _).symm, (ha.append (h b hb)).append hd⟩

/-- Two stars are as good as one. -/
theorem accepts_starStar (p q c : String) : accepts (p ++ "**" ++ q) c = accepts (p ++ "*" ++ q) c := by
  rw [Bool.eq_iff_iff]
  constructor
  · apply accepts_of_piece
    intro w hw
    exact spells_starStar_iff.mp hw
  · apply accepts_of_piece
    intro w hw
    exact spells_starStar_iff.mpr hw

/-- A star is wider than any piece on one line. -/
theorem accepts_star_of_piece (hx : '\n' ∉ x.toList) (hc : accepts (p ++ x ++ q) c = true) :
    accepts (p ++ "*" ++ q) c = true := by
  refine accepts_of_piece ?_ hc
  intro w hw
  exact spells_star_iff.mpr (hw.lineFeed_notMem hx)

end Laws

/-- **Laws of wildcards**: text around a candidate, stars at the ends of a pattern and repeated stars do not matter, and
a star in the place of a piece that is on one line widens a pattern. -/
theorem accepts_laws (c u v p q x : String) :
    (accepts p c = true → accepts p (u ++ c ++ v) = true) ∧
      (accepts ("*" ++ p) c = accepts p c ∧ accepts (p ++ "*") c = accepts p c) ∧
      accepts (p ++ "**" ++ q) c = accepts (p ++ "*" ++ q) c ∧
      ('\n' ∉ x.toList → accepts (p ++ x ++ q) c = true → accepts (p ++ "*" ++ q) c = true) :=
  ⟨accepts_append u v, ⟨accepts_star_append p c, accepts_append_star p c⟩, accepts_starStar p q c,
    accepts_star_of_piece⟩

/-- The piece `b*c` that is replaced holds a star itself. -/
theorem accepts_laws_starredPiece :
    (accepts "ab*cd" "abxcd" = true ∧ accepts "ab*cd" "[abxcd\n]" = true) ∧
      '\n' ∉ "b*c".toList ∧ accepts ("a" ++ "b*c" ++ "d") "abxcd" = true ∧
      accepts ("a" ++ "*" ++ "d") "abxcd" = true := by
  have hpart : accepts "ab*cd" "abxcd" = true := by decide +kernel
  have hpiece : accepts ("a" ++ "b*c" ++ "d") "abxcd" = true := by decide +kernel
  have hline : '\n' ∉ "b*c".toList := by decide +kernel
  have hlonger := (accepts_laws "abxcd" "[" "\n]" "ab*cd" "" "").1 hpart
  have hwider := (accepts_laws "abxcd" "" "" "a" "d" "b*c").2.2.2 hline hpiece
  exact ⟨⟨hpart, hlonger⟩, hline, hpiece, hwider⟩

end Conformance.Wildcard
