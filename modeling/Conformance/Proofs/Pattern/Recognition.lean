import Mathlib.Data.List.Perm.Subperm
import Mathlib.Data.List.Sort
import Conformance.Proofs.Pattern.Finding
import Conformance.Proofs.Pattern.Fitting
import Conformance.Proofs.Pattern.Padding

/-!
# Classes of texts and the scans for them

A pattern that looks at nothing but the characters it matches (`Pattern.Plain`) matches all that fits it
(`exists_mem_ends_of_fits`), so that it occurs in every text with a piece that fits (`occursIn_iff`), and recognizes a
class of texts (`Pattern.Recognizes`).

A scan goes on behind each match, and so it may pass over an occurrence that begins inside another one. Where no text of
the class begins inside another (`Apart`), there is none: the scan finds every occurrence, from left to right and each
once (`areOccurrences_scan`). Which occurrences there are in a piece of a text does not depend on the text around the
piece (`AreOccurrences.sublist_around`).
-/

namespace Conformance

/-! ## Occurrences -/

/-- The piece is a text of the class and stands in `text`. -/
def Span.IsOccurrence (P : List Char → Prop) (text : List Char) (s : Span) : Prop :=
  ∃ before after, text = before ++ (s.text ++ after) ∧ before.length = s.start ∧ P s.text

/-- The pieces are all occurrences of texts of the class, one for each place where one starts, from left to right. -/
structure AreOccurrences (P : List Char → Prop) (text : List Char) (spans : List Span) : Prop where
  mem_iff : ∀ s, s ∈ spans ↔ s.IsOccurrence P text
  increasing : spans.Pairwise (·.start < ·.start)

theorem Span.IsOccurrence.around {P : List Char → Prop} {text : List Char} {s : Span} (h : s.IsOccurrence P text)
    (before after : List Char) : (s.moved before.length).IsOccurrence P (before ++ (text ++ after)) := by
  obtain ⟨u, v, rfl, hlength, hs⟩ := h
  refine ⟨before ++ u, v ++ after, by simp [moved], ?_, hs⟩
  rw [List.length_append, hlength, Nat.add_comm]
  rfl

/-- Of two lists of pieces from left to right, one is part of the other if its members are. -/
theorem sublist_of_subset {spans others : List Span} (hspans : spans.Pairwise (·.start < ·.start))
    (hothers : others.Pairwise (·.start < ·.start)) (h : spans ⊆ others) : spans.Sublist others := by
  have hirrefl : Std.Irrefl fun s t : Span => s.start < t.start := ⟨fun s => Nat.lt_irrefl s.start⟩
  have hantisymm : Std.Antisymm fun s t : Span => s.start < t.start :=
    ⟨fun _ _ hst hts => absurd hst (Nat.lt_asymm hts)⟩
  exact List.sublist_of_subperm_of_pairwise (List.subperm_of_subset hspans.nodup h) hspans hothers

namespace AreOccurrences

variable {P : List Char → Prop} {text : List Char} {spans others : List Span}

/-- A text has one list of occurrences. -/
theorem unique (h : AreOccurrences P text spans) (h' : AreOccurrences P text others) : spans = others := by
  have hiff : ∀ s, s ∈ spans ↔ s ∈ others := fun s => (h.mem_iff s).trans (h'.mem_iff s).symm
  have hle := sublist_of_subset h.increasing h'.increasing fun s => (hiff s).mp
  have hge := sublist_of_subset h'.increasing h.increasing fun s => (hiff s).mpr
  exact hle.antisymm hge

/-- **The occurrences in a piece of a text** are occurrences in the text, whatever is around the piece. -/
theorem sublist_around (h : AreOccurrences P text spans) {before after : List Char}
    (h' : AreOccurrences P (before ++ (text ++ after)) others) :
    (spans.map (Span.moved before.length)).Sublist others := by
  have hincreasing : (spans.map (Span.moved before.length)).Pairwise (·.start < ·.start) :=
    List.pairwise_map.mpr (h.increasing.imp fun hlt => Nat.add_lt_add_right hlt _)
  refine sublist_of_subset hincreasing h'.increasing fun moved hmoved => ?_
  obtain ⟨s, hs, rfl⟩ := List.mem_map.mp hmoved
  exact (h'.mem_iff _).mpr (((h.mem_iff s).mp hs).around before after)

end AreOccurrences

/-! ## Classes of texts that stand apart -/

/-- No text of the class is empty, and none begins inside another: if what is left of one agrees with another as far
as both go, nothing was taken away and they are the same. -/
structure Apart (P : List Char → Prop) : Prop where
  ne_nil : ¬ P []
  eq : ∀ a b t, P (a ++ b) → b ≠ [] → P t → b <+: t ∨ t <+: b → a = [] ∧ b = t

namespace Apart

variable {P : List Char → Prop}

/-- Texts stand apart if their first character is in none of them again and none can be continued. -/
theorem of_opening {x : Char} (hopens : ∀ t, P t → ∃ u, t = x :: u ∧ x ∉ u)
    (hends : ∀ t u, P t → P (t ++ u) → u = []) : Apart P := by
  constructor
  · intro hnil
    obtain ⟨u, hu, -⟩ := hopens [] hnil
    cases hu
  · intro a b t hab hb ht hagree
    obtain ⟨v, rfl, -⟩ := hopens t ht
    -- What is left begins with the first character too, so that it is all.
    obtain ⟨w, rfl⟩ : ∃ w, b = x :: w := by
      obtain ⟨y, w, rfl⟩ := List.exists_cons_of_ne_nil hb
      rcases hagree with h | h
      · exact ⟨w, by rw [(List.cons_prefix_cons.mp h).1]⟩
      · exact ⟨w, by rw [← (List.cons_prefix_cons.mp h).1]⟩
    obtain rfl : a = [] := by
      cases a with
      | nil => rfl
      | cons y a =>
        obtain ⟨u, hu, hx⟩ := hopens _ hab
        rw [List.cons_append, List.cons.injEq] at hu
        exact absurd (by simp [← hu.2]) hx
    refine ⟨rfl, ?_⟩
    rcases hagree with ⟨r, hr⟩ | ⟨r, hr⟩
    · have hnil := hends _ r hab (hr ▸ ht)
      rw [← hr, hnil, List.append_nil]
    · have hnil := hends _ r ht (hr ▸ hab)
      rw [← hr, hnil, List.append_nil]

/-- Of two texts of the class in one text, the second starts behind the first or is the first. -/
theorem length_le_or_eq (h : Apart P) {before t after w rest : List Char}
    (heq : before ++ (t ++ after) = w ++ rest) (ht : P t) (hw : P w) :
    w.length ≤ before.length ∨ before = [] ∧ w = t := by
  rcases List.append_eq_append_iff.mp heq with ⟨b, rfl, hb⟩ | ⟨b, rfl, -⟩
  · by_cases hnil : b = []
    · exact .inl (by simp [hnil])
    · have hagree : b <+: t ∨ t <+: b :=
        List.prefix_or_prefix_of_prefix (hb ▸ List.prefix_append b rest) (List.prefix_append t after)
      obtain ⟨rfl, rfl⟩ := h.eq before b t hw hnil ht hagree
      exact .inr ⟨rfl, rfl⟩
  · exact .inl (by simp)

end Apart

namespace Pattern

/-! ## Patterns that match all that fits -/

/-- Matching looks at nothing but the characters that are matched. -/
def Plain : Pattern → Prop
  | empty => True
  | char _ => True
  | seq p q => p.Plain ∧ q.Plain
  | alt p q => p.Plain ∧ q.Plain
  | run _ _ test => ∃ passes : Char → Bool, test = fun cs => cs.head?.any passes
  | mark p => p.Plain
  | wordEdge => False
  | lineStart => False

/-- **A plain pattern matches all that fits it**, whatever stands around it. -/
theorem exists_mem_ends_of_fits {p : Pattern} (hp : p.Plain) {c : Cursor} {t rest : List Char} (ht : p.Fits t)
    (hc : c.rest = t ++ rest) : ∃ d ∈ p.ends c, c.Reaches t d := by
  induction p generalizing c t rest with
  | empty =>
    obtain rfl : t = [] := ht
    exact ⟨c, List.mem_singleton_self c, .refl c⟩
  | char test =>
    obtain ⟨x, rfl, hx⟩ := ht
    refine ⟨⟨some x, rest, c.offset + 1, c.marked⟩, ?_, hc, rfl⟩
    rw [ends, hc]
    simp [hx]
  | seq p q ihp ihq =>
    obtain ⟨u, v, rfl, hu, hv⟩ := ht
    obtain ⟨d, hd, hud⟩ := ihp hp.1 hu (hc.trans (List.append_assoc ..))
    have hrest : d.rest = v ++ rest := by
      have heq := hud.rest.symm.trans (hc.trans (List.append_assoc ..))
      exact List.append_cancel_left heq
    obtain ⟨e, he, hve⟩ := ihq hp.2 hv hrest
    exact ⟨e, List.mem_flatMap.mpr ⟨d, hd, he⟩, hud.trans hve⟩
  | alt p q ihp ihq =>
    rcases ht with ht | ht
    · obtain ⟨d, hd, htd⟩ := ihp hp.1 ht hc
      exact ⟨d, List.mem_append_left _ hd, htd⟩
    · obtain ⟨d, hd, htd⟩ := ihq hp.2 ht hc
      exact ⟨d, List.mem_append_right _ hd, htd⟩
  | run greedy least test =>
    obtain ⟨passes, rfl⟩ := hp
    obtain ⟨hleast, hfits⟩ := ht
    have hpasses : ∀ x ∈ t, passes x = true := by simpa using hfits
    -- A run of the class goes over all of the piece, and may end behind it.
    obtain ⟨v, after, rfl, hrun⟩ := LongestRun.exists_append (fun cs => cs.head?.any passes) rest
    have hlong := hrun.append_of_class hpasses
    have hmem : c.past t ∈ runEnds greedy least (fun cs => cs.head?.any passes) c :=
      (hlong.mem_runEnds_iff (hc.trans (List.append_assoc ..).symm)).mpr ⟨t, List.prefix_append t v, hleast, rfl⟩
    exact ⟨c.past t, hmem, Cursor.reaches_past hc⟩
  | mark p ih =>
    obtain ⟨d, hd, htd⟩ := ih hp ht hc
    exact ⟨_, List.mem_map_of_mem hd, htd.rest, htd.offset⟩
  | wordEdge => exact hp.elim
  | lineStart => exact hp.elim

/-- Nothing fits where a plain pattern does not match. -/
theorem not_fits_of_matchAt?_eq_none {p : Pattern} (hp : p.Plain) {c : Cursor} (h : p.matchAt? c = none)
    {t rest : List Char} (hc : c.rest = t ++ rest) : ¬ p.Fits t := by
  intro ht
  obtain ⟨d, hd, -⟩ := exists_mem_ends_of_fits hp ht hc
  have hsome := isSome_matchAt?_of_mem_ends hd
  rw [h] at hsome
  cases hsome

/-- A plain pattern matches where a beginning of the text fits, and nowhere else. -/
theorem isSome_matchAt?_iff {p : Pattern} (hp : p.Plain) {c : Cursor} :
    (p.matchAt? c).isSome = true ↔ ∃ t rest, c.rest = t ++ rest ∧ p.Fits t := by
  constructor
  · intro h
    obtain ⟨m, hm⟩ := Option.isSome_iff_exists.mp h
    obtain ⟨t, rest, hrest, -, ht⟩ := exists_fitting_of_matchAt? hm
    exact ⟨t, rest, hrest, ht⟩
  · rintro ⟨t, rest, hrest, ht⟩
    by_contra hnone
    exact not_fits_of_matchAt?_eq_none hp (Option.not_isSome_iff_eq_none.mp hnone) hrest ht

theorem occursFrom_iff {p : Pattern} (hp : p.Plain) (last : Option Char) (offset : Nat) {text : List Char} :
    p.occursFrom last offset text = true ↔ ∃ t, p.Fits t ∧ t <:+: text := by
  induction text generalizing last offset with
  | nil =>
    rw [occursFrom, isSome_matchAt?_iff hp]
    constructor
    · rintro ⟨t, rest, hrest, ht⟩
      obtain ⟨rfl, -⟩ := List.nil_eq_append_iff.mp hrest
      exact ⟨[], ht, List.infix_rfl⟩
    · rintro ⟨t, ht, hinfix⟩
      obtain rfl := List.infix_nil.mp hinfix
      exact ⟨[], [], rfl, ht⟩
  | cons x xs ih =>
    rw [occursFrom, Bool.or_eq_true, isSome_matchAt?_iff hp, ih]
    constructor
    · rintro (⟨t, rest, hrest, ht⟩ | ⟨t, ht, hinfix⟩)
      · exact ⟨t, ht, List.IsPrefix.isInfix ⟨rest, hrest.symm⟩⟩
      · exact ⟨t, ht, List.infix_cons hinfix⟩
    · rintro ⟨t, ht, hinfix⟩
      rcases List.infix_cons_iff.mp hinfix with ⟨rest, hrest⟩ | hinfix
      · exact .inl ⟨t, rest, hrest.symm, ht⟩
      · exact .inr ⟨t, ht, hinfix⟩

/-- **A plain pattern occurs in a text** iff a piece of the text fits. -/
theorem occursIn_iff {p : Pattern} (hp : p.Plain) {text : List Char} :
    p.occursIn text = true ↔ ∃ t, p.Fits t ∧ t <:+: text :=
  occursFrom_iff hp none 0

/-! ## Scans that miss nothing -/

/-- What a scan finds fits the pattern. -/
theorem isOccurrence_of_mem_scan {p : Pattern} {text : List Char} {m : Match} (h : m ∈ p.scan text) :
    m.whole.IsOccurrence p.Fits text := by
  obtain ⟨c, before, -, -, hm, htext, hoffset⟩ := foundIn_of_mem_scanFrom h
  obtain ⟨t, after, hrest, hwhole, ht⟩ := exists_fitting_of_matchAt? hm
  rw [hwhole]
  exact ⟨before, after, by rw [htext, hrest], by rw [hoffset, Nat.zero_add], ht⟩

/-- A match and a piece that fits somewhere behind its start: the match is the piece itself, or it ends before the piece
starts. -/
theorem whole_eq_or_length_le {p : Pattern} (hapart : Apart p.Fits) {c : Cursor} {m : Match}
    (hm : p.matchAt? c = some m) {before t after : List Char} (hc : c.rest = before ++ (t ++ after)) (ht : p.Fits t) :
    m.whole = ⟨c.offset + before.length, t⟩ ∨ 0 < m.whole.text.length ∧ m.whole.text.length ≤ before.length := by
  obtain ⟨w, rest, hrest, hwhole, hw⟩ := exists_fitting_of_matchAt? hm
  rw [hwhole]
  rcases hapart.length_le_or_eq (hc.symm.trans hrest) ht hw with hlength | ⟨rfl, rfl⟩
  · have hne : w ≠ [] := by
      rintro rfl
      exact hapart.ne_nil hw
    exact .inr ⟨List.length_pos_iff.mpr hne, hlength⟩
  · exact .inl rfl

/-- The match around the start of a piece that fits is the piece. -/
theorem mem_scan_of_fits {p : Pattern} (hp : p.Plain) (hapart : Apart p.Fits) {before t after : List Char}
    (ht : p.Fits t) : ⟨before.length, t⟩ ∈ (p.scan (before ++ (t ++ after))).map (·.whole) := by
  have hne : ∀ c m, p.matchAt? c = some m → m.whole.text ≠ [] := by
    intro c m hm hnil
    obtain ⟨w, rest, -, hwhole, hw⟩ := exists_fitting_of_matchAt? hm
    rw [hwhole] at hnil
    exact hapart.ne_nil (hnil ▸ hw)
  have hoffset : before.length ≤ (before ++ (t ++ after)).length := by
    rw [List.length_append]
    omega
  have hplace : (Cursor.ofOffset (before ++ (t ++ after)) before.length).rest = t ++ after := List.drop_left
  have hsome := (isSome_matchAt?_iff hp).mpr ⟨t, after, hplace, ht⟩
  obtain ⟨m, ⟨hm, hstart, hstop⟩, -⟩ := existsUnique_mem_scan hne hoffset hsome
  have hrest : (Cursor.ofOffset (before ++ (t ++ after)) m.whole.start).rest =
      before.drop m.whole.start ++ (t ++ after) := List.drop_append_of_le_length hstart
  have hlength : m.whole.start + (before.drop m.whole.start).length = before.length := by
    rw [List.length_drop]
    omega
  refine List.mem_map.mpr ⟨m, hm, ?_⟩
  rcases whole_eq_or_length_le hapart (matchAt?_of_mem_scan hm) hrest ht with hwhole | ⟨-, hle⟩
  · rw [hwhole]
    exact congrArg (Span.mk · t) hlength
  · rw [Match.stop] at hstop
    omega

/-- The pattern matches the texts of a class, wherever they stand, and no others. -/
structure Recognizes (p : Pattern) (P : List Char → Prop) : Prop where
  plain : p.Plain
  fits_iff : ∀ t, p.Fits t ↔ P t

/-- **A scan misses no occurrence** of texts that stand apart. -/
theorem Recognizes.areOccurrences_scan {p : Pattern} {P : List Char → Prop} (hp : p.Recognizes P) (hapart : Apart P)
    (text : List Char) : AreOccurrences P text ((p.scan text).map (·.whole)) := by
  obtain rfl : p.Fits = P := funext fun t => propext (hp.fits_iff t)
  constructor
  · intro s
    constructor
    · intro hs
      obtain ⟨m, hm, rfl⟩ := List.mem_map.mp hs
      exact isOccurrence_of_mem_scan hm
    · rintro ⟨before, after, rfl, hstart, hs⟩
      have hmem : ⟨before.length, s.text⟩ ∈ (p.scan (before ++ (s.text ++ after))).map (·.whole) :=
        mem_scan_of_fits hp.plain hapart hs
      rwa [hstart] at hmem
  · refine List.pairwise_map.mpr ((pairwise_scan p text).imp_of_mem fun {m n} hm _ hle => ?_)
    obtain ⟨-, -, -, -, hfits⟩ := isOccurrence_of_mem_scan hm
    have hpos : 0 < m.whole.text.length := by
      rw [List.length_pos_iff]
      intro hnil
      exact hapart.ne_nil (hnil ▸ hfits)
    rw [Match.stop] at hle
    omega

/-! ## Composed patterns -/

section Composed

@[simp] theorem plain_inOrder (ps : List Pattern) : (inOrder ps).Plain ↔ ∀ p ∈ ps, p.Plain := by
  induction ps with
  | nil => simp [inOrder, Plain]
  | cons p ps ih =>
    rw [List.forall_mem_cons, ← ih]
    rfl

@[simp] theorem plain_oneOf (ps : List Pattern) : (oneOf ps).Plain ↔ ∀ p ∈ ps, p.Plain := by
  induction ps with
  | nil => simp [oneOf, never, Plain]
  | cons p ps ih =>
    rw [List.forall_mem_cons, ← ih]
    rfl

@[simp] theorem plain_char (test : Char → Bool) : (char test).Plain := trivial

@[simp] theorem plain_optional (p : Pattern) : (optional p).Plain ↔ p.Plain := by
  simp [optional, Plain]

@[simp] theorem plain_spell (test : Char → Char → Bool) (s : String) : (spell test s).Plain := by
  rw [spell]
  induction s.toList with
  | nil => trivial
  | cons x xs ih => exact ⟨trivial, ih⟩

@[simp] theorem plain_text (s : String) : (text s).Plain := plain_spell _ s

@[simp] theorem plain_anyCase (s : String) : (anyCase s).Plain := plain_spell _ s

@[simp] theorem plain_greedily (least : Nat) (test : Char → Bool) : (greedily least test).Plain := ⟨test, rfl⟩

@[simp] theorem plain_blanks (least : Nat) : (blanks least).Plain := plain_greedily least _

end Composed

end Pattern

end Conformance
