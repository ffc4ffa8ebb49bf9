import Conformance.Proofs.Pattern.Opening

/-!
# Pieces that fit a pattern

`Fits p t` says of a piece of text, without the text around it, that the pattern may match it: it follows the pattern
constructor by constructor, and edges fit the empty piece. Whatever a pattern matches fits it
(`exists_fitting_of_mem_ends`), so a pattern matches nothing where no beginning of the text fits.
-/

namespace Conformance.Pattern

/-- Whether the pattern may match the piece, as far as the characters of the piece tell. -/
def Fits : Pattern → List Char → Prop
  | empty, t => t = []
  | char test, t => ∃ x, t = [x] ∧ test x = true
  | seq p q, t => ∃ u v, t = u ++ v ∧ p.Fits u ∧ q.Fits v
  | alt p q, t => p.Fits t ∨ q.Fits t
  | run _ least test, t => least ≤ t.length ∧ ∀ x ∈ t, ∃ xs, test (x :: xs) = true
  | mark p, t => p.Fits t
  | wordEdge, t => t = []
  | lineStart, t => t = []

/-- **What a pattern matches fits it.** -/
theorem exists_fitting_of_mem_ends {p : Pattern} {c d : Cursor} (h : d ∈ p.ends c) : ∃ t, c.Reaches t d ∧ p.Fits t := by
  induction p generalizing c d with
  | empty =>
    obtain rfl := List.mem_singleton.mp h
    exact ⟨[], .refl _, rfl⟩
  | char test =>
    rw [ends] at h
    split at h
    · cases h
    · rename_i x xs hrest
      obtain ⟨hx, h⟩ := List.mem_ite_nil_right.mp h
      obtain rfl := List.mem_singleton.mp h
      exact ⟨[x], ⟨hrest, rfl⟩, x, rfl, hx⟩
  | seq p q ihp ihq =>
    obtain ⟨e, he, hd⟩ := List.mem_flatMap.mp h
    obtain ⟨u, hu, hfits⟩ := ihp he
    obtain ⟨v, hv, hfits'⟩ := ihq hd
    exact ⟨u ++ v, hu.trans hv, u, v, rfl, hfits, hfits'⟩
  | alt p q ihp ihq =>
    rcases List.mem_append.mp h with h | h
    · obtain ⟨t, ht, hfits⟩ := ihp h
      exact ⟨t, ht, .inl hfits⟩
    · obtain ⟨t, ht, hfits⟩ := ihq h
      exact ⟨t, ht, .inr hfits⟩
  | run greedy least test =>
    have hdrop : d ∈ (stops test c.last c.offset c.marked c.rest).drop least := by
      cases greedy <;> simpa [ends, runEnds] using h
    have hlength := le_offset_of_mem_drop_stops hdrop
    obtain ⟨t, ht, -, hpasses⟩ :=
      exists_of_mem_stops (P := fun x => ∃ xs, test (x :: xs) = true) (List.mem_of_mem_drop hdrop)
    have hoffset : d.offset = c.offset + t.length := ht.offset
    exact ⟨t, ht, by omega, hpasses fun x xs hx => ⟨xs, hx⟩⟩
  | mark p ih =>
    obtain ⟨e, he, rfl⟩ := List.mem_map.mp h
    obtain ⟨t, ht, hfits⟩ := ih he
    exact ⟨t, ⟨ht.rest, ht.offset⟩, hfits⟩
  | wordEdge =>
    obtain rfl := List.mem_singleton.mp (List.mem_ite_nil_right.mp h).2
    exact ⟨[], .refl _, rfl⟩
  | lineStart =>
    obtain rfl := List.mem_singleton.mp (List.mem_ite_nil_right.mp h).2
    exact ⟨[], .refl _, rfl⟩

/-- What the preferred match matches fits the pattern. -/
theorem exists_fitting_of_matchAt? {p : Pattern} {c : Cursor} {m : Match} (h : p.matchAt? c = some m) :
    ∃ t rest, c.rest = t ++ rest ∧ m.whole = ⟨c.offset, t⟩ ∧ p.Fits t := by
  obtain ⟨d, hd, rfl⟩ := exists_of_matchAt? h
  obtain ⟨t, hreach, ht⟩ := exists_fitting_of_mem_ends hd
  exact ⟨t, d.rest, hreach.rest, hreach.upTo_eq, ht⟩

/-! ## Composed patterns -/

/-- Patterns in order are matched one group after the other. -/
theorem ends_inOrder_append (ps qs : List Pattern) (c : Cursor) :
    (inOrder (ps ++ qs)).ends c = ((inOrder ps).ends c).flatMap (inOrder qs).ends := by
  induction ps generalizing c with
  | nil => exact (List.flatMap_singleton ..).symm
  | cons p ps ih =>
    have hrest : (inOrder (ps ++ qs)).ends = fun d => ((inOrder ps).ends d).flatMap (inOrder qs).ends := funext ih
    have hcons : ∀ rs, (inOrder (p :: rs)).ends c = (p.ends c).flatMap (inOrder rs).ends := fun _ => rfl
    rw [List.cons_append, hcons, hcons, hrest, List.flatMap_assoc]

section Composed

variable {t : List Char}

theorem fits_text {s : String} : (text s).Fits t ↔ t = s.toList := by
  rw [text, spell]
  induction s.toList generalizing t with
  | nil => exact Iff.rfl
  | cons x xs ih =>
    constructor
    · rintro ⟨u, v, rfl, ⟨y, rfl, hy⟩, hv⟩
      rw [ih.mp hv, beq_iff_eq.mp hy]
      rfl
    · rintro rfl
      exact ⟨[x], xs, rfl, ⟨x, rfl, beq_self_eq_true x⟩, ih.mpr rfl⟩

theorem fits_char {test : Char → Bool} : (char test).Fits t ↔ ∃ x, t = [x] ∧ test x = true := Iff.rfl

/-- One certain character. -/
theorem fits_char_beq {x : Char} : (char (· == x)).Fits t ↔ t = [x] := by
  simp [fits_char]

theorem fits_mark {p : Pattern} : (mark p).Fits t ↔ p.Fits t := Iff.rfl

theorem fits_alt {p q : Pattern} : (alt p q).Fits t ↔ p.Fits t ∨ q.Fits t := Iff.rfl

theorem fits_optional {p : Pattern} : (optional p).Fits t ↔ p.Fits t ∨ t = [] := Iff.rfl

theorem fits_oneOf {ps : List Pattern} : (oneOf ps).Fits t ↔ ∃ p ∈ ps, p.Fits t := by
  induction ps with
  | nil => simp [oneOf, never, Fits]
  | cons p ps ih =>
    simp only [List.mem_cons, exists_eq_or_imp, ← ih]
    rfl

theorem fits_inOrder_nil : (inOrder []).Fits t ↔ t = [] := Iff.rfl

theorem fits_inOrder_cons {p : Pattern} {ps : List Pattern} :
    (inOrder (p :: ps)).Fits t ↔ ∃ u v, t = u ++ v ∧ p.Fits u ∧ (inOrder ps).Fits v := Iff.rfl

theorem fits_greedily {least : Nat} {test : Char → Bool} :
    (greedily least test).Fits t ↔ least ≤ t.length ∧ ∀ x ∈ t, test x = true := by
  simp [greedily, Fits]

theorem fits_blanks {least : Nat} : (blanks least).Fits t ↔ least ≤ t.length ∧ ∀ x ∈ t, Text.isBlank x = true :=
  fits_greedily

end Composed

end Conformance.Pattern
