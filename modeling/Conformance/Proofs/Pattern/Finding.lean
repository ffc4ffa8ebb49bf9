import Conformance.Proofs.Pattern.Fitting
import Conformance.Proofs.Pattern.Scan
import Mathlib.Data.List.Infix

/-!
# How a pattern is matched

The preferred match of a pattern at a place in a text that is known so far is found step by step: a pattern in order
with others hands over to them at the place behind what it has matched (`Cursor.past`).

- `find_char`, `find_text` and `find_blank` go on behind the only end there is.
- A run can match a longest piece (`LongestRun`) and its beginnings (`LongestRun.mem_runEnds_iff`). A greedy run goes on
  behind the longest, if what follows can go on there (`LongestRun.find_eq_of_some`) or can go on nowhere else
  (`LongestRun.find_eq_of_fails`).
- A lazy run goes on at the first place where what follows can go on (`find_lazily`). If it runs over any characters,
  that is before the first piece that fits what follows (`find_lazily_any`).
- Something optional is taken if what follows can go on behind it (`find_optional_some`), else left out
  (`find_optional_none`).
-/

namespace Conformance

namespace Cursor

/-- The place behind the next characters `t`. -/
def past (c : Cursor) (t : List Char) : Cursor :=
  ⟨lastOf c.last t, c.rest.drop t.length, c.offset + t.length, c.marked⟩

/-- The same place, with a piece marked. -/
def marking (c : Cursor) (s : Span) : Cursor := { c with marked := some s }

variable {c : Cursor} {t u xs : List Char}

theorem past_append : c.past (t ++ u) = (c.past t).past u := by
  simp only [past, lastOf_append, List.drop_drop, List.length_append, Nat.add_assoc]

theorem rest_past (h : c.rest = t ++ xs) : (c.past t).rest = xs := by
  show c.rest.drop t.length = xs
  rw [h, List.drop_left]

theorem reaches_past (h : c.rest = t ++ xs) : c.Reaches t (c.past t) := by
  constructor
  · rw [rest_past h, h]
  · rfl

theorem past_marking (s : Span) : (c.marking s).past t = (c.past t).marking s := rfl

end Cursor

namespace Pattern

variable {α : Type} {k : Cursor → Option α} {a : α} {c : Cursor} {w xs : List Char} {x : Char}

theorem find_inOrder_cons {p : Pattern} {ps : List Pattern} :
    (inOrder (p :: ps)).find k c = p.find ((inOrder ps).find k) c := rfl

theorem find_mark {p : Pattern} : (mark p).find k c = p.find (fun d => k (d.marking (c.upTo d))) c := rfl

theorem find_of_ends_eq_nil {p : Pattern} (h : p.ends c = []) : p.find k c = none := by
  rw [find_eq, h]
  rfl

/-- If all places that a continuation accepts give the same, the first of them gives it. -/
theorem findSome?_eq_some_of_agree {places : List Cursor} {d : Cursor} (hagree : ∀ e ∈ places, ∀ b ∈ k e, b = a)
    (hd : d ∈ places) (hk : k d = some a) : places.findSome? k = some a := by
  cases hfind : places.findSome? k with
  | none =>
    rw [List.findSome?_eq_none_iff.mp hfind d hd] at hk
    cases hk
  | some b =>
    obtain ⟨e, he, hb⟩ := List.exists_of_findSome?_eq_some hfind
    rw [hagree e he b hb]

/-! ## Single characters and words -/

theorem find_char {test : Char → Bool} (h : c.rest = x :: xs) (hx : test x = true) :
    (char test).find k c = k (c.past [x]) := by
  have hpast : c.past [x] = ⟨some x, xs, c.offset + 1, c.marked⟩ := by
    rw [Cursor.past, h]
    rfl
  rw [find, h, hpast]
  exact if_pos hx

/-- A certain character. -/
theorem find_char_beq (h : c.rest = x :: xs) : (char (· == x)).find k c = k (c.past [x]) :=
  find_char h (beq_self_eq_true x)

theorem find_text {s : String} (h : c.rest = s.toList ++ xs) : (text s).find k c = k (c.past s.toList) := by
  rw [text, spell]
  generalize s.toList = t at h
  induction t generalizing c with
  | nil => rfl
  | cons x t ih =>
    have hx : (x == x) = true := beq_self_eq_true x
    have hrest := Cursor.rest_past (t := [x]) h
    show (char (fun y => x == y)).find _ c = _
    rw [find_char h hx, ih hrest]
    exact congrArg k (Cursor.past_append (t := [x])).symm

/-! ## Runs -/

/-- The beginnings of a text that are not too short. -/
theorem mem_drop_inits {n : Nat} {u : List Char} : u ∈ w.inits.drop n ↔ u <+: w ∧ n ≤ u.length := by
  rw [List.mem_drop_iff_getElem]
  constructor
  · rintro ⟨i, hi, rfl⟩
    rw [List.length_inits] at hi
    rw [List.getElem_inits]
    refine ⟨List.take_prefix _ w, ?_⟩
    rw [List.length_take]
    omega
  · rintro ⟨hu, hn⟩
    have hlength := hu.length_le
    refine ⟨u.length - n, by rw [List.length_inits]; omega, ?_⟩
    rw [List.getElem_inits, Nat.add_sub_cancel' hn]
    exact (List.prefix_iff_eq_take.mp hu).symm

/-- `w` is all that a run can match in front of `rest`: it may go on at each character of `w`, and no further. -/
def LongestRun (test : List Char → Bool) : List Char → List Char → Prop
  | [], rest => rest ≠ [] → test rest = false
  | x :: w, rest => test (x :: (w ++ rest)) = true ∧ LongestRun test w rest

namespace LongestRun

variable {test : List Char → Bool} {passes : Char → Bool} {least : Nat} {greedy : Bool}

/-- Every text begins with a longest run. -/
theorem exists_append (test : List Char → Bool) (text : List Char) :
    ∃ w rest, text = w ++ rest ∧ LongestRun test w rest := by
  induction text with
  | nil => exact ⟨[], [], rfl, fun hne => absurd rfl hne⟩
  | cons x text ih =>
    by_cases hx : test (x :: text) = true
    · obtain ⟨w, rest, rfl, hrun⟩ := ih
      exact ⟨x :: w, rest, rfl, hx, hrun⟩
    · exact ⟨[], x :: text, rfl, fun _ => Bool.not_eq_true _ ▸ hx⟩

/-- What is left of a longest run is one. -/
theorem of_append {u v : List Char} (h : LongestRun test (u ++ v) xs) : LongestRun test v xs := by
  induction u with
  | nil => exact h
  | cons x u ih => exact ih h.2

/-- A longest run does not go on. -/
theorem fails_behind (h : LongestRun test w xs) (hne : xs ≠ []) : test xs = false := by
  rw [← List.append_nil w] at h
  exact h.of_append hne

/-- Characters of the class in front of a longest run belong to it. -/
theorem append_of_class {v : List Char} (hw : ∀ x ∈ w, passes x = true)
    (h : LongestRun (fun cs => cs.head?.any passes) v xs) : LongestRun (fun cs => cs.head?.any passes) (w ++ v) xs := by
  induction w with
  | nil => exact h
  | cons x w ih =>
    obtain ⟨hx, hw⟩ := List.forall_mem_cons.mp hw
    exact ⟨hx, ih hw⟩

/-- A longest run of a class ends where the class ends. -/
theorem of_class (hw : ∀ x ∈ w, passes x = true) (hxs : ∀ x ∈ xs.head?, passes x = false) :
    LongestRun (fun cs => cs.head?.any passes) w xs := by
  have hnil : LongestRun (fun cs => cs.head?.any passes) [] xs := by
    intro hne
    obtain ⟨x, xs, rfl⟩ := List.exists_cons_of_ne_nil hne
    exact hxs x rfl
  have happend := append_of_class hw hnil
  rwa [List.append_nil] at happend

section Ends

variable (h : LongestRun test w xs) (hc : c.rest = w ++ xs)
include h hc

/-- A run stops behind each beginning of the longest run. -/
theorem stops_eq : stops test c.last c.offset c.marked c.rest = w.inits.map c.past := by
  induction w generalizing c with
  | nil =>
    have hrest : c.rest = xs := hc
    show _ = [c]
    rw [hrest]
    cases xs with
    | nil => rw [stops, ← hrest]
    | cons x xs => rw [stops, h (List.cons_ne_nil x xs), ← hrest]; rfl
  | cons x w ih =>
    have hrest : (c.past [x]).rest = w ++ xs := Cursor.rest_past (t := [x]) hc
    have hpast : (c.past [x]).past = fun t => c.past (x :: t) := funext fun t => Cursor.past_append.symm
    have htail : stops test (some x) (c.offset + 1) c.marked (w ++ xs) = w.inits.map (c.past [x]).past := by
      have hnext := ih h.2 hrest
      rwa [hrest] at hnext
    have hstops : stops test c.last c.offset c.marked (x :: (w ++ xs)) =
        ⟨c.last, x :: (w ++ xs), c.offset, c.marked⟩ :: stops test (some x) (c.offset + 1) c.marked (w ++ xs) := by
      rw [stops, if_pos h.1]
    rw [hc, List.cons_append, hstops, htail, hpast, List.inits_cons, List.map_cons, List.map_map, ← List.cons_append,
      ← hc]
    rfl

/-- A run may end behind each beginning of the longest run that is not too short. -/
theorem mem_runEnds_iff {d : Cursor} :
    d ∈ runEnds greedy least test c ↔ ∃ u, u <+: w ∧ least ≤ u.length ∧ d = c.past u := by
  have hmem : d ∈ runEnds greedy least test c ↔ d ∈ (w.inits.drop least).map c.past := by
    rw [runEnds, h.stops_eq hc, List.map_drop]
    cases greedy with
    | true => exact List.mem_reverse
    | false => exact Iff.rfl
  rw [hmem, List.mem_map]
  constructor
  · rintro ⟨u, hu, rfl⟩
    obtain ⟨hbegins, hleast⟩ := mem_drop_inits.mp hu
    exact ⟨u, hbegins, hleast, rfl⟩
  · rintro ⟨u, hbegins, hleast, rfl⟩
    exact ⟨u, mem_drop_inits.mpr ⟨hbegins, hleast⟩, rfl⟩

/-- A greedy run prefers to end behind the longest run. -/
theorem head?_runEnds : (runEnds true least test c).head? = if least ≤ w.length then some (c.past w) else none := by
  have hlast : ∀ v : List Char, v.inits.getLast? = some v := by
    intro v
    induction v with
    | nil => rfl
    | cons x v ih => simp [List.getLast?_cons, ih]
  rw [runEnds, h.stops_eq hc, if_pos rfl, List.head?_reverse, List.getLast?_drop, List.getLast?_map, hlast,
    List.length_map, List.length_inits, Option.map_some]
  split <;> split <;> first | rfl | omega

/-- **A greedy run** ends behind the longest run, if what follows can go on there. -/
theorem find_eq_of_some (hk : k (c.past w) = some a) :
    (run true least test).find k c = if least ≤ w.length then some a else none := by
  have hhead : (runEnds true least test c).head? = _ := h.head?_runEnds hc
  show (runEnds true least test c).findSome? k = _
  by_cases hleast : least ≤ w.length
  · rw [if_pos hleast] at hhead ⊢
    obtain ⟨others, hends⟩ := List.head?_eq_some_iff.mp hhead
    rw [hends, List.findSome?_cons, hk]
  · rw [if_neg hleast] at hhead ⊢
    rw [List.head?_eq_none_iff.mp hhead]
    rfl

/-- A greedy run does not end earlier if what follows cannot go on there. -/
theorem find_eq_of_fails (hfail : ∀ u v, w = u ++ v → v ≠ [] → k (c.past u) = none) :
    (run true least test).find k c = if least ≤ w.length then k (c.past w) else none := by
  cases hk : k (c.past w) with
  | some a => exact h.find_eq_of_some hc hk
  | none =>
    rw [ite_self]
    show (runEnds true least test c).findSome? k = none
    rw [List.findSome?_eq_none_iff]
    intro d hd
    obtain ⟨u, ⟨v, rfl⟩, -, rfl⟩ := (h.mem_runEnds_iff hc).mp hd
    by_cases hv : v = []
    · rwa [hv, List.append_nil] at hk
    · exact hfail u v rfl hv

end Ends

end LongestRun

/-- A greedy run of a class ends where the class ends, if what follows can go on there. -/
theorem find_greedily {least : Nat} {test : Char → Bool} (h : c.rest = w ++ xs) (hw : ∀ x ∈ w, test x = true)
    (hxs : ∀ x ∈ xs.head?, test x = false) (hleast : least ≤ w.length) (hk : k (c.past w) = some a) :
    (greedily least test).find k c = some a := by
  have hfind : (greedily least test).find k c = _ := (LongestRun.of_class hw hxs).find_eq_of_some h hk
  rwa [if_pos hleast] at hfind

/-- A greedy run of a class goes to the end of the class, if what follows does not begin with a character of it. -/
theorem find_greedily_of_fails {least : Nat} {test : Char → Bool} (h : c.rest = w ++ xs) (hw : ∀ x ∈ w, test x = true)
    (hxs : ∀ x ∈ xs.head?, test x = false) (hfail : ∀ d : Cursor, d.rest.head?.any test = true → k d = none) :
    (greedily least test).find k c = if least ≤ w.length then k (c.past w) else none := by
  apply (LongestRun.of_class hw hxs).find_eq_of_fails h
  rintro u v rfl hv
  obtain ⟨x, v, rfl⟩ := List.exists_cons_of_ne_nil hv
  apply hfail
  rw [Cursor.rest_past (h.trans (List.append_assoc ..))]
  exact hw x (List.mem_append_right u List.mem_cons_self)

/-- Behind the characters of a class, the text goes on with another one, if what follows them does. -/
theorem head?_dropWhile_append {test : Char → Bool} (w : List Char) (hxs : ∀ x ∈ xs.head?, test x = false) :
    ∀ x ∈ (w.dropWhile test ++ xs).head?, test x = false := by
  intro x hx
  cases hdrop : w.dropWhile test with
  | nil =>
    rw [hdrop] at hx
    exact hxs x hx
  | cons y ys =>
    have hy := List.head?_dropWhile_not test w
    rw [hdrop] at hx hy
    obtain rfl := Option.some.inj hx
    exact hy

/-- Nothing is matched in front of a character that the pattern does not open with. -/
theorem find_eq_none_of_head? {p : Pattern} (hp : p.isNullable = false) {test : Char → Bool}
    (hopens : ∀ x, test x = true → ¬ p.OpensWith x) (hc : c.rest.head?.any test = true) : p.find k c = none := by
  obtain ⟨x, hx, htest⟩ := (Option.any_eq_true _ _).mp hc
  exact find_of_ends_eq_nil (ends_eq_nil hp (hopens x htest) hx)

/-- A greedy run of a class in front of patterns that do not open with a character of the class. -/
theorem find_greedily_inOrder {least : Nat} {test : Char → Bool} {ps : List Pattern} (h : c.rest = w ++ xs)
    (hw : ∀ x ∈ w, test x = true) (hxs : ∀ x ∈ xs.head?, test x = false) (hleast : least ≤ w.length)
    (hps : (inOrder ps).isNullable = false) (hopens : ∀ x, test x = true → ¬ (inOrder ps).OpensWith x) :
    (inOrder (greedily least test :: ps)).find k c = (inOrder ps).find k (c.past w) := by
  rw [find_inOrder_cons, find_greedily_of_fails h hw hxs fun d => find_eq_none_of_head? hps hopens, if_pos hleast]

/-- A certain character, behind white space of any kind. -/
theorem find_behind_blanks {ps : List Pattern} (h : c.rest = w ++ ([x] ++ xs)) (hw : ∀ y ∈ w, Text.isBlank y = true)
    (hx : Text.isBlank x = false) :
    (inOrder (blanks 0 :: char (· == x) :: ps)).find k c = (inOrder ps).find k (c.past (w ++ [x])) := by
  have hopens : ∀ y, Text.isBlank y = true → ¬ (inOrder (char (· == x) :: ps)).OpensWith y := by
    intro y hy
    simp only [opensWith_inOrder_cons, OpensWith, isNullable, beq_iff_eq, Bool.false_eq_true, false_and, or_false]
    rintro rfl
    simp [hx] at hy
  have hstop : ∀ y ∈ ([x] ++ xs).head?, Text.isBlank y = false := by simpa using hx
  rw [blanks, find_greedily_inOrder h hw hstop (Nat.zero_le _) (by simp [isNullable]) hopens, find_inOrder_cons,
    find_char_beq (Cursor.rest_past h), Cursor.past_append]

/-- **A lazy run** ends at the first place where what follows can go on. -/
theorem find_lazily {least : Nat} {test : Char → Bool} (h : c.rest = w ++ xs) (hw : ∀ x ∈ w, test x = true)
    (hleast : least ≤ w.length) (hfail : ∀ u v, w = u ++ v → v ≠ [] → least ≤ u.length → k (c.past u) = none)
    (hk : k (c.past w) = some a) : (lazily least test).find k c = some a := by
  obtain ⟨v, rest, rfl, hrun⟩ := LongestRun.exists_append (fun cs => cs.head?.any test) xs
  have hends : runEnds false least (fun cs => cs.head?.any test) c =
      (w.inits.drop least).map c.past ++ (v.inits.tail.map (w ++ ·)).map c.past := by
    have hlength : least ≤ w.inits.length := by
      rw [List.length_inits]
      omega
    rw [runEnds, (hrun.append_of_class hw).stops_eq (h.trans (List.append_assoc ..).symm), List.inits_append,
      List.map_append, List.drop_append_of_le_length (by rwa [List.length_map]), List.map_drop]
    rfl
  have hplace : c.past w ∈ (w.inits.drop least).map c.past :=
    List.mem_map_of_mem (mem_drop_inits.mpr ⟨List.prefix_rfl, hleast⟩)
  have hagree : ∀ e ∈ (w.inits.drop least).map c.past, ∀ b ∈ k e, b = a := by
    intro e he b hb
    obtain ⟨u, hu, rfl⟩ := List.mem_map.mp he
    obtain ⟨⟨v, rfl⟩, hlength⟩ := mem_drop_inits.mp hu
    by_cases hv : v = []
    · rw [hv, List.append_nil] at hk
      exact Option.some.inj (hb.symm.trans hk)
    · rw [hfail u v rfl hv hlength] at hb
      cases hb
  show (runEnds false least _ c).findSome? k = some a
  rw [hends, List.findSome?_append, findSome?_eq_some_of_agree hagree hplace hk]
  rfl

/-- The piece `t`, which has the property, stands behind `before`, and no piece with the property begins earlier. -/
structure IsFirst (P : List Char → Prop) (before t after : List Char) : Prop where
  holds : P t
  first : ∀ u v w, before = u ++ v → v ≠ [] → P w → ¬ w <+: v ++ (t ++ after)

/-- If a piece of a text has a property, there is a first one. -/
theorem exists_isFirst {P : List Char → Prop} {t : List Char} (ht : P t) (before after : List Char) :
    ∃ u v rest, before ++ (t ++ after) = u ++ (v ++ rest) ∧ IsFirst P u v rest := by
  induction before with
  | nil =>
    refine ⟨[], t, after, rfl, ht, ?_⟩
    intro u v w hnil hv
    exact absurd (List.append_eq_nil_iff.mp hnil.symm).2 hv
  | cons x before ih =>
    by_cases hhere : ∃ v, P v ∧ v <+: x :: before ++ (t ++ after)
    · obtain ⟨v, hv, rest, hrest⟩ := hhere
      refine ⟨[], v, rest, hrest.symm, hv, ?_⟩
      intro u w _ hnil hw
      exact absurd (List.append_eq_nil_iff.mp hnil.symm).2 hw
    · obtain ⟨u, v, rest, hrest, hfirst⟩ := ih
      have htext : x :: before ++ (t ++ after) = x :: u ++ (v ++ rest) := congrArg (x :: ·) hrest
      refine ⟨x :: u, v, rest, htext, hfirst.holds, ?_⟩
      intro a b w hab hb hw
      cases a with
      | nil =>
        obtain rfl : x :: u = b := hab
        rw [← htext]
        exact fun hprefix => hhere ⟨w, hw, hprefix⟩
      | cons y a => exact hfirst.first a b w (List.cons.inj hab).2 hb hw

/-- What comes first in a text comes first in what is left of it. -/
theorem IsFirst.of_append {P : List Char → Prop} {u t after : List Char} (h : IsFirst P (u ++ w) t after) :
    IsFirst P w t after := by
  refine ⟨h.holds, ?_⟩
  rintro a b v rfl
  exact h.first (u ++ a) b v (List.append_assoc ..).symm

/-- Nothing is matched where no beginning of the text fits. -/
theorem find_eq_none_of_not_fits {p : Pattern} (h : ∀ t, p.Fits t → ¬ t <+: c.rest) : p.find k c = none := by
  apply find_of_ends_eq_nil
  rw [List.eq_nil_iff_forall_not_mem]
  intro d hd
  obtain ⟨t, ht, hfits⟩ := exists_fitting_of_mem_ends hd
  exact h t hfits ⟨d.rest, ht.rest.symm⟩

/-- **A lazy run of any characters** ends before the first piece that fits what follows. -/
theorem find_lazily_any {ps : List Pattern} {t after : List Char} (h : c.rest = w ++ (t ++ after))
    (hfirst : IsFirst (inOrder ps).Fits w t after) (hk : (inOrder ps).find k (c.past w) = some a) :
    (inOrder (lazily 0 (fun _ => true) :: ps)).find k c = some a := by
  refine find_lazily h (fun _ _ => rfl) (Nat.zero_le _) ?_ hk
  rintro u v rfl hv -
  apply find_eq_none_of_not_fits
  intro t' ht'
  rw [Cursor.rest_past (h.trans (List.append_assoc ..))]
  exact hfirst.first u v t' rfl hv ht'

/-- One character of white space, if no more follow. -/
theorem find_blank (h : c.rest = x :: xs) (hx : Text.isBlank x = true) (hxs : ∀ y ∈ xs.head?, Text.isBlank y = false) :
    (blanks 1).find k c = k (c.past [x]) := by
  have hrun : LongestRun (fun cs => cs.head?.any Text.isBlank) [x] xs := .of_class (by simpa using hx) hxs
  have hends : runEnds true 1 (fun cs => cs.head?.any Text.isBlank) c = [c.past [x]] := by
    rw [runEnds, hrun.stops_eq h]
    rfl
  rw [blanks, greedily, find, hends, List.findSome?_cons, List.findSome?_nil]
  cases k (c.past [x]) <;> rfl

/-! ## Choices -/

theorem find_alt_left {p q : Pattern} (h : p.find k c = some a) : (alt p q).find k c = some a := by
  rw [find, h]
  rfl

theorem find_alt_right {p q : Pattern} (h : p.find k c = none) : (alt p q).find k c = q.find k c := by
  rw [find, h]
  rfl

/-- Something optional is taken if what follows can go on behind it. -/
theorem find_optional_some {p : Pattern} (h : p.find k c = some a) : (optional p).find k c = some a := find_alt_left h

/-- Something optional that does not match is left out. -/
theorem find_optional_none {p : Pattern} (h : p.find k c = none) : (optional p).find k c = k c := find_alt_right h

end Pattern

end Conformance
