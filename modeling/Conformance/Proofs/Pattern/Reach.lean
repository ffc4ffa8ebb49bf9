import Conformance.Pattern.Scan

/-!
# What a match is made of

An end of a match lies further in the text than its start, and the characters between are those of the match
(`exists_of_mem_ends`). A pattern can rule out characters, in all that it matches (`Only`) or in what it marks
(`MarksOnly`); `markedText_of_mem_scan` says so for all matches that a scan finds. What a match marks is a part of what
it matches (`markedText_infix_of_mem_scan`).
-/

namespace Conformance

/-- `d` stands behind the characters `t` that follow `c`. -/
structure Cursor.Reaches (c : Cursor) (t : List Char) (d : Cursor) : Prop where
  rest : c.rest = t ++ d.rest
  offset : d.offset = c.offset + t.length

/-- The character before the place behind `t`, if `last` stands before `t`. -/
def Cursor.lastOf : Option Char → List Char → Option Char
  | last, [] => last
  | _, x :: t => lastOf (some x) t

theorem Cursor.lastOf_append (last : Option Char) (a b : List Char) :
    lastOf last (a ++ b) = lastOf (lastOf last a) b := by
  induction a generalizing last with
  | nil => rfl
  | cons x a ih => exact ih (some x)

theorem Cursor.exists_mem_lastOf {t : List Char} (ht : t ≠ []) (last : Option Char) : ∃ x ∈ t, lastOf last t = some x := by
  induction t generalizing last with
  | nil => exact absurd rfl ht
  | cons x t ih =>
    by_cases hnil : t = []
    · exact ⟨x, List.mem_cons_self, by rw [hnil]; rfl⟩
    · obtain ⟨y, hy, hlast⟩ := ih hnil (some x)
      exact ⟨y, List.mem_cons_of_mem x hy, hlast⟩

namespace Cursor.Reaches

variable {c d e : Cursor} {t u : List Char}

theorem refl (c : Cursor) : c.Reaches [] c := ⟨rfl, rfl⟩

theorem trans (h : c.Reaches t d) (h' : d.Reaches u e) : c.Reaches (t ++ u) e := by
  refine ⟨by rw [h.rest, h'.rest, List.append_assoc], ?_⟩
  rw [h'.offset, h.offset, List.length_append]
  omega

theorem upTo_eq (h : c.Reaches t d) : c.upTo d = ⟨c.offset, t⟩ := by
  have hlen : d.offset - c.offset = t.length := by
    have := h.offset
    omega
  rw [Cursor.upTo, hlen, h.rest, List.take_left]

end Cursor.Reaches

namespace Pattern

/-- All characters that the pattern can match are in a class. -/
def Only (P : Char → Prop) : Pattern → Prop
  | empty => True
  | char test => ∀ x, test x = true → P x
  | seq p q => p.Only P ∧ q.Only P
  | alt p q => p.Only P ∧ q.Only P
  | run _ _ test => ∀ x xs, test (x :: xs) = true → P x
  | mark p => p.Only P
  | wordEdge => True
  | lineStart => True

/-- All characters that the pattern can mark are in a class. -/
def MarksOnly (P : Char → Prop) : Pattern → Prop
  | seq p q => p.MarksOnly P ∧ q.MarksOnly P
  | alt p q => p.MarksOnly P ∧ q.MarksOnly P
  | mark p => p.Only P
  | _ => True

/-! ## Ends -/

section Ends

variable {P : Char → Prop} {c d : Cursor}

/-- The places that a run may reach stand behind characters at which it may go on. -/
theorem exists_of_mem_stops {test : List Char → Bool} {last : Option Char} {offset : Nat} {marked : Option Span}
    {xs : List Char} (h : d ∈ stops test last offset marked xs) :
    ∃ t, (⟨last, xs, offset, marked⟩ : Cursor).Reaches t d ∧ d.marked = marked ∧
      ((∀ x xs, test (x :: xs) = true → P x) → ∀ x ∈ t, P x) := by
  induction xs generalizing last offset with
  | nil =>
    obtain rfl := List.mem_singleton.mp h
    exact ⟨[], .refl _, rfl, by simp⟩
  | cons x xs ih =>
    rw [stops] at h
    rcases List.mem_cons.mp h with rfl | h
    · exact ⟨[], .refl _, rfl, by simp⟩
    · obtain ⟨hx, h⟩ := List.mem_ite_nil_right.mp h
      obtain ⟨t, hreach, hmarked, hP⟩ := ih h
      have hstep : (⟨last, x :: xs, offset, marked⟩ : Cursor).Reaches [x] ⟨some x, xs, offset + 1, marked⟩ := ⟨rfl, rfl⟩
      exact ⟨x :: t, hstep.trans hreach, hmarked, fun htest => List.forall_mem_cons.mpr ⟨htest x xs hx, hP htest⟩⟩

theorem mem_stops_of_mem_runEnds {greedy : Bool} {least : Nat} {test : List Char → Bool}
    (h : d ∈ runEnds greedy least test c) : d ∈ stops test c.last c.offset c.marked c.rest := by
  rw [runEnds] at h
  cases greedy with
  | true => exact List.mem_of_mem_drop (List.mem_reverse.mp (by simpa using h))
  | false => exact List.mem_of_mem_drop (by simpa using h)

/-- **The end of a match** stands behind the characters of the match, which are among those that the pattern can
match. -/
theorem exists_of_mem_ends {p : Pattern} (h : d ∈ p.ends c) :
    ∃ t, c.Reaches t d ∧ (p.Only P → ∀ x ∈ t, P x) := by
  induction p generalizing c d with
  | empty =>
    obtain rfl := List.mem_singleton.mp h
    exact ⟨[], .refl _, by simp⟩
  | char test =>
    rw [ends] at h
    split at h
    · cases h
    · rename_i x xs hrest
      obtain ⟨hx, h⟩ := List.mem_ite_nil_right.mp h
      obtain rfl := List.mem_singleton.mp h
      exact ⟨[x], ⟨hrest, rfl⟩, fun hP => by simpa using hP x hx⟩
  | seq p q ihp ihq =>
    obtain ⟨e, he, hd⟩ := List.mem_flatMap.mp h
    obtain ⟨t, ht, hPt⟩ := ihp he
    obtain ⟨u, hu, hPu⟩ := ihq hd
    exact ⟨t ++ u, ht.trans hu, fun hP => List.forall_mem_append.mpr ⟨hPt hP.1, hPu hP.2⟩⟩
  | alt p q ihp ihq =>
    rcases List.mem_append.mp h with h | h
    · obtain ⟨t, ht, hPt⟩ := ihp h
      exact ⟨t, ht, fun hP => hPt hP.1⟩
    · obtain ⟨t, ht, hPt⟩ := ihq h
      exact ⟨t, ht, fun hP => hPt hP.2⟩
  | run greedy least test =>
    obtain ⟨t, ht, -, hP⟩ := exists_of_mem_stops (P := P) (mem_stops_of_mem_runEnds h)
    exact ⟨t, ht, hP⟩
  | mark p ih =>
    obtain ⟨e, he, rfl⟩ := List.mem_map.mp h
    obtain ⟨t, ht, hPt⟩ := ih he
    exact ⟨t, ⟨ht.rest, ht.offset⟩, hPt⟩
  | wordEdge =>
    obtain rfl := List.mem_singleton.mp (List.mem_ite_nil_right.mp h).2
    exact ⟨[], .refl _, by simp⟩
  | lineStart =>
    obtain rfl := List.mem_singleton.mp (List.mem_ite_nil_right.mp h).2
    exact ⟨[], .refl _, by simp⟩

/-- What a match marks, it marks with characters that the pattern can mark. -/
theorem marked_of_mem_ends {p : Pattern} (hp : p.MarksOnly P) (hc : ∀ s ∈ c.marked, ∀ x ∈ s.text, P x)
    (h : d ∈ p.ends c) : ∀ s ∈ d.marked, ∀ x ∈ s.text, P x := by
  induction p generalizing c d with
  | empty =>
    obtain rfl := List.mem_singleton.mp h
    exact hc
  | char test =>
    rw [ends] at h
    split at h
    · cases h
    · obtain rfl := List.mem_singleton.mp (List.mem_ite_nil_right.mp h).2
      exact hc
  | seq p q ihp ihq =>
    obtain ⟨e, he, hd⟩ := List.mem_flatMap.mp h
    exact ihq hp.2 (ihp hp.1 hc he) hd
  | alt p q ihp ihq =>
    rcases List.mem_append.mp h with h | h
    · exact ihp hp.1 hc h
    · exact ihq hp.2 hc h
  | run greedy least test =>
    obtain ⟨t, -, hmarked, -⟩ := exists_of_mem_stops (P := P) (mem_stops_of_mem_runEnds h)
    rwa [hmarked]
  | mark p =>
    obtain ⟨e, he, rfl⟩ := List.mem_map.mp h
    obtain ⟨t, ht, hPt⟩ := exists_of_mem_ends (P := P) he
    simpa [ht.upTo_eq] using hPt hp
  | wordEdge =>
    obtain rfl := List.mem_singleton.mp (List.mem_ite_nil_right.mp h).2
    exact hc
  | lineStart =>
    obtain rfl := List.mem_singleton.mp (List.mem_ite_nil_right.mp h).2
    exact hc

/-- What is marked on the way to an end is a part of what is matched, unless it was marked before. -/
theorem marked_eq_or_infix_of_mem_ends {p : Pattern} (h : d ∈ p.ends c) :
    ∃ t, c.Reaches t d ∧ (d.marked = c.marked ∨ ∃ s, d.marked = some s ∧ s.text <:+: t) := by
  induction p generalizing c d with
  | empty =>
    obtain rfl := List.mem_singleton.mp h
    exact ⟨[], .refl _, .inl rfl⟩
  | char test =>
    obtain ⟨t, ht, -⟩ := exists_of_mem_ends (P := fun _ => True) h
    rw [ends] at h
    split at h
    · cases h
    · obtain rfl := List.mem_singleton.mp (List.mem_ite_nil_right.mp h).2
      exact ⟨t, ht, .inl rfl⟩
  | seq p q ihp ihq =>
    obtain ⟨e, he, hd⟩ := List.mem_flatMap.mp h
    obtain ⟨t, ht, hmarked⟩ := ihp he
    obtain ⟨u, hu, hmarked'⟩ := ihq hd
    refine ⟨t ++ u, ht.trans hu, ?_⟩
    rcases hmarked' with heq | ⟨s, hs, hinfix⟩
    · rw [heq]
      rcases hmarked with hsame | ⟨s, hs, hinfix⟩
      · exact .inl hsame
      · exact .inr ⟨s, hs, List.infix_append_of_infix_left hinfix⟩
    · exact .inr ⟨s, hs, List.infix_append_of_infix_right hinfix⟩
  | alt p q ihp ihq =>
    rcases List.mem_append.mp h with h | h
    · exact ihp h
    · exact ihq h
  | run greedy least test =>
    obtain ⟨t, ht, hmarked, -⟩ := exists_of_mem_stops (P := fun _ => True) (mem_stops_of_mem_runEnds h)
    exact ⟨t, ht, .inl hmarked⟩
  | mark p =>
    obtain ⟨e, he, rfl⟩ := List.mem_map.mp h
    obtain ⟨t, ht, -⟩ := exists_of_mem_ends (P := fun _ => True) he
    have hpiece : (c.upTo e).text = t := congrArg Span.text ht.upTo_eq
    exact ⟨t, ⟨ht.rest, ht.offset⟩, .inr ⟨_, rfl, hpiece ▸ List.infix_rfl⟩⟩
  | wordEdge =>
    obtain rfl := List.mem_singleton.mp (List.mem_ite_nil_right.mp h).2
    exact ⟨[], .refl _, .inl rfl⟩
  | lineStart =>
    obtain rfl := List.mem_singleton.mp (List.mem_ite_nil_right.mp h).2
    exact ⟨[], .refl _, .inl rfl⟩

end Ends

/-! ## Scans -/

/-- The preferred match goes to the first of the ends. -/
theorem matchAt?_eq_head? (p : Pattern) (c : Cursor) :
    p.matchAt? c = (p.ends c).head?.map fun d => ⟨c.upTo d, d.marked⟩ := by
  rw [matchAt?, find_eq]
  cases p.ends c <;> rfl

theorem exists_of_matchAt? {p : Pattern} {c : Cursor} {m : Match} (h : p.matchAt? c = some m) :
    ∃ d ∈ p.ends c, m = ⟨c.upTo d, d.marked⟩ := by
  rw [matchAt?, find_eq] at h
  obtain ⟨d, hd, hm⟩ := List.exists_of_findSome?_eq_some h
  exact ⟨d, hd, (Option.some.inj hm).symm⟩

/-- Where a match may end, there is a preferred match. -/
theorem isSome_matchAt?_of_mem_ends {p : Pattern} {c d : Cursor} (h : d ∈ p.ends c) :
    (p.matchAt? c).isSome = true := by
  rw [matchAt?_eq_head?, Option.isSome_map, List.isSome_head?]
  exact List.ne_nil_of_mem h

/-- `m` is the preferred match at some place in the text `xs`, which stands behind `last` and the first character of which
has the given offset. -/
def FoundIn (p : Pattern) (last : Option Char) (offset : Nat) (xs : List Char) (m : Match) : Prop :=
  ∃ (c : Cursor) (u : List Char), c.marked = none ∧ c.last = Cursor.lastOf last u ∧ p.matchAt? c = some m ∧
    xs = u ++ c.rest ∧ c.offset = offset + u.length

theorem FoundIn.cons {p : Pattern} {last : Option Char} {offset : Nat} {x : Char} {xs : List Char} {m : Match}
    (h : p.FoundIn (some x) (offset + 1) xs m) : p.FoundIn last offset (x :: xs) m := by
  obtain ⟨c, u, hmarked, hlast, hm, rfl, hoffset⟩ := h
  refine ⟨c, x :: u, hmarked, hlast, hm, rfl, ?_⟩
  rw [hoffset, List.length_cons]
  omega

theorem foundIn_of_mem_scanFrom {p : Pattern} {last : Option Char} {offset skip : Nat} {xs : List Char} {m : Match}
    (h : m ∈ p.scanFrom last offset skip xs) : p.FoundIn last offset xs m := by
  fun_induction scanFrom p last offset skip xs with
  | case1 last offset => exact ⟨_, [], rfl, rfl, Option.mem_toList.mp h, rfl, rfl⟩
  | case2 => cases h
  | case3 last offset x xs skip ih => exact (ih h).cons
  | case4 last offset x xs m' hm ih =>
    rcases List.mem_cons.mp h with rfl | h
    · exact ⟨_, [], rfl, rfl, hm, rfl, rfl⟩
    · exact (ih h).cons
  | case5 last offset x xs hnone ih => exact (ih h).cons

/-- **What the matches of a scan mark** consists of characters that the pattern can mark. -/
theorem markedText_of_mem_scan {P : Char → Prop} {p : Pattern} (hp : p.MarksOnly P) {text : List Char} {m : Match}
    (h : m ∈ p.scan text) : ∀ x ∈ m.markedText, P x := by
  obtain ⟨c, -, hc, -, hm, -⟩ := foundIn_of_mem_scanFrom h
  obtain ⟨d, hd, rfl⟩ := exists_of_matchAt? hm
  have hmarked := marked_of_mem_ends hp (by simp [hc]) hd
  cases hs : d.marked with
  | none => simp [Match.markedText]
  | some s => simpa [Match.markedText, hs] using hmarked s hs

/-- **What the matches of a scan mark** is a part of what they match. -/
theorem markedText_infix_of_mem_scan {p : Pattern} {text : List Char} {m : Match} (h : m ∈ p.scan text) :
    m.markedText <:+: m.whole.text := by
  obtain ⟨c, -, hc, -, hm, -⟩ := foundIn_of_mem_scanFrom h
  obtain ⟨d, hd, rfl⟩ := exists_of_matchAt? hm
  obtain ⟨t, ht, hmarked⟩ := marked_eq_or_infix_of_mem_ends hd
  rw [Match.markedText, ht.upTo_eq]
  rcases hmarked with heq | ⟨s, hs, hinfix⟩
  · rw [heq, hc]
    exact List.nil_infix
  · rw [hs]
    exact hinfix

/-! ## Composed patterns -/

section Composed

variable (P : Char → Prop)

@[simp] theorem marksOnly_inOrder (ps : List Pattern) : (inOrder ps).MarksOnly P ↔ ∀ p ∈ ps, p.MarksOnly P := by
  induction ps with
  | nil => simp [inOrder, MarksOnly]
  | cons p ps ih =>
    rw [List.forall_mem_cons, ← ih]
    rfl

@[simp] theorem marksOnly_oneOf (ps : List Pattern) : (oneOf ps).MarksOnly P ↔ ∀ p ∈ ps, p.MarksOnly P := by
  induction ps with
  | nil => simp [oneOf, never, MarksOnly]
  | cons p ps ih =>
    rw [List.forall_mem_cons, ← ih]
    rfl

@[simp] theorem marksOnly_optional (p : Pattern) : (optional p).MarksOnly P ↔ p.MarksOnly P := by
  simp [optional, MarksOnly]

@[simp] theorem marksOnly_text (s : String) : (text s).MarksOnly P := by
  rw [text, spell]
  induction s.toList with
  | nil => trivial
  | cons x xs ih => exact ⟨trivial, ih⟩

@[simp] theorem marksOnly_blanks (least : Nat) : (blanks least).MarksOnly P := trivial

@[simp] theorem marksOnly_greedily (least : Nat) (test : Char → Bool) : (greedily least test).MarksOnly P := trivial

@[simp] theorem marksOnly_lazily (least : Nat) (test : Char → Bool) : (lazily least test).MarksOnly P := trivial

@[simp] theorem marksOnly_optionalWord (word : String) : (optionalWord word).MarksOnly P := by
  simp [optionalWord]

@[simp] theorem only_greedily (least : Nat) (test : Char → Bool) :
    (greedily least test).Only P ↔ ∀ x, test x = true → P x := by
  simp [greedily, Only]

end Composed

end Pattern

end Conformance
