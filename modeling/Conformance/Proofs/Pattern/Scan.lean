import Conformance.Proofs.Pattern.Reach
import Mathlib.Data.List.Pairwise

/-!
# Steps of a scan

A scan takes the preferred match where there is one and goes on behind it (`scanFrom_of_matchAt?`); a text in which
nothing matches is passed over (`scanFrom_of_nowhere`). So it finds matches from left to right, and each of them starts
where the one before it has ended, or later (`pairwise_scan`). What it finds are preferred matches
(`matchAt?_of_mem_scan`), and no place with a preferred match lies outside what it finds (`existsUnique_mem_scan`).
-/

namespace Conformance

/-- The place at an offset of a text. -/
def Cursor.ofOffset (text : List Char) (offset : Nat) : Cursor :=
  ⟨lastOf none (text.take offset), text.drop offset, offset, none⟩

namespace Pattern

variable {p : Pattern} {last : Option Char} {offset : Nat}

/-! ## One step -/

/-- The characters that are skipped are passed over. -/
theorem scanFrom_skip (last : Option Char) (offset : Nat) (t rest : List Char) :
    p.scanFrom last offset t.length (t ++ rest) =
      p.scanFrom (Cursor.lastOf last t) (offset + t.length) 0 rest := by
  induction t generalizing last offset with
  | nil => rfl
  | cons x t ih =>
    have hnext := ih (some x) (offset + 1)
    rw [Nat.add_right_comm] at hnext
    exact hnext

/-- **A match is found, and the scan goes on behind it.** -/
theorem scanFrom_of_matchAt? {t rest : List Char} {m : Match} (hne : t ≠ [])
    (hm : p.matchAt? ⟨last, t ++ rest, offset, none⟩ = some m) (htext : m.whole.text = t) :
    p.scanFrom last offset 0 (t ++ rest) =
      m :: p.scanFrom (Cursor.lastOf last t) (offset + t.length) 0 rest := by
  cases t with
  | nil => exact absurd rfl hne
  | cons x t =>
    have hskip := scanFrom_skip (p := p) (some x) (offset + 1) t rest
    rw [Nat.add_right_comm] at hskip
    rw [List.cons_append] at hm ⊢
    rw [scanFrom, hm]
    show m :: p.scanFrom (some x) (offset + 1) (m.whole.text.length - 1) (t ++ rest) = _
    rw [htext]
    exact congrArg (m :: ·) hskip

/-- Where nothing matches, the scan goes on one character further. -/
theorem scanFrom_of_eq_none {x : Char} {rest : List Char} (h : p.matchAt? ⟨last, x :: rest, offset, none⟩ = none) :
    p.scanFrom last offset 0 (x :: rest) = p.scanFrom (some x) (offset + 1) 0 rest := by
  rw [scanFrom, h]

/-- **A text is passed over** if nothing matches at any of its characters. -/
theorem scanFrom_of_nowhere {t after : List Char}
    (h : ∀ u x v, t = u ++ x :: v → ∀ offset,
      p.matchAt? ⟨Cursor.lastOf last u, x :: (v ++ after), offset, none⟩ = none) :
    p.scanFrom last offset 0 (t ++ after) = p.scanFrom (Cursor.lastOf last t) (offset + t.length) 0 after := by
  induction t generalizing last offset with
  | nil => rfl
  | cons x t ih =>
    have hfirst : p.matchAt? ⟨last, x :: (t ++ after), offset, none⟩ = none := h [] x t rfl offset
    have hrest : p.scanFrom (some x) (offset + 1) 0 (t ++ after) = _ :=
      ih fun u y v ht => h (x :: u) y v (congrArg (x :: ·) ht)
    rw [List.cons_append, scanFrom_of_eq_none hfirst, hrest, List.length_cons, Nat.add_right_comm]
    rfl

/-! ## The order of matches -/

/-- No match starts in the characters that are skipped. -/
theorem le_start_of_mem_scanFrom {skip : Nat} {xs : List Char} {m : Match}
    (h : m ∈ p.scanFrom last offset skip xs) : offset + skip ≤ m.whole.start := by
  have hstart : ∀ {c : Cursor} {m : Match}, p.matchAt? c = some m → m.whole.start = c.offset := by
    intro c m hm
    obtain ⟨d, -, rfl⟩ := exists_of_matchAt? hm
    rfl
  fun_induction scanFrom p last offset skip xs with
  | case1 last offset =>
    have : m.whole.start = offset := hstart (Option.mem_toList.mp h)
    omega
  | case2 => cases h
  | case3 last offset x xs skip ih =>
    have := ih h
    omega
  | case4 last offset x xs m' hm ih =>
    rcases List.mem_cons.mp h with rfl | h
    · have : m.whole.start = offset := hstart hm
      omega
    · have := ih h
      omega
  | case5 last offset x xs hm ih =>
    have := ih h
    omega

theorem pairwise_scanFrom (last : Option Char) (offset skip : Nat) (xs : List Char) :
    (p.scanFrom last offset skip xs).Pairwise fun m n => m.stop ≤ n.whole.start := by
  fun_induction scanFrom p last offset skip xs with
  | case1 =>
    cases p.matchAt? _ with
    | none => exact .nil
    | some m => exact List.pairwise_singleton _ m
  | case2 => exact .nil
  | case3 last offset x xs skip ih => exact ih
  | case4 last offset x xs m hm ih =>
    refine List.pairwise_cons.mpr ⟨?_, ih⟩
    intro n hn
    obtain ⟨d, -, rfl⟩ := exists_of_matchAt? hm
    have hle := le_start_of_mem_scanFrom hn
    simp only [Match.stop, Cursor.upTo] at hle ⊢
    omega
  | case5 last offset x xs hm ih => exact ih

/-- **Matches do not overlap**: each starts where the one before it has ended, or later. -/
theorem pairwise_scan (p : Pattern) (text : List Char) :
    (p.scan text).Pairwise fun m n => m.stop ≤ n.whole.start :=
  pairwise_scanFrom none 0 0 text

/-- Of two matches one starts where the other has ended, or later. -/
theorem disjoint_of_mem_scan {text : List Char} {m n : Match} (hm : m ∈ p.scan text) (hn : n ∈ p.scan text)
    (hne : m ≠ n) : m.stop ≤ n.whole.start ∨ n.stop ≤ m.whole.start := by
  have hsymm : Std.Symm fun m n : Match => m.stop ≤ n.whole.start ∨ n.stop ≤ m.whole.start := ⟨fun _ _ => Or.symm⟩
  have hpairwise : (p.scan text).Pairwise fun m n => m.stop ≤ n.whole.start ∨ n.stop ≤ m.whole.start :=
    (pairwise_scan p text).imp Or.inl
  exact hpairwise.forall hm hn hne

/-! ## What a scan finds -/

/-- Every match of a scan is the preferred match at the place where it starts. -/
theorem matchAt?_of_mem_scan {text : List Char} {m : Match} (h : m ∈ p.scan text) :
    p.matchAt? (Cursor.ofOffset text m.whole.start) = some m := by
  obtain ⟨c, u, hmarked, hlast, hm, rfl, hoffset⟩ := foundIn_of_mem_scanFrom h
  have hstart : m.whole.start = u.length := by
    obtain ⟨d, -, rfl⟩ := exists_of_matchAt? hm
    exact hoffset.trans (Nat.zero_add _)
  have hplace : Cursor.ofOffset (u ++ c.rest) u.length = c := by
    obtain ⟨last, rest, offset, marked⟩ := c
    simp only [Nat.zero_add] at hmarked hlast hoffset
    simp only [Cursor.ofOffset, List.take_left, List.drop_left, hmarked, hlast, hoffset]
  rwa [hstart, hplace]

section Covering

variable (hne : ∀ c m, p.matchAt? c = some m → m.whole.text ≠ [])
include hne

/-- The induction is on the scan. If it takes a match in front of the place, the place is in that match or is not
skipped. -/
theorem exists_mem_scanFrom {skip : Nat} {xs before rest : List Char} (hxs : xs = before ++ rest)
    (hskip : skip ≤ before.length)
    (hm : (p.matchAt? ⟨Cursor.lastOf last before, rest, offset + before.length, none⟩).isSome = true) :
    ∃ m ∈ p.scanFrom last offset skip xs, m.whole.start ≤ offset + before.length ∧ offset + before.length < m.stop := by
  have hfirst : ∀ {last : Option Char} {rest : List Char} {offset : Nat} {m : Match},
      p.matchAt? ⟨last, rest, offset, none⟩ = some m → m.whole.start = offset ∧ offset < m.stop := by
    intro last rest offset m hm
    have hpos := List.length_pos_iff.mpr (hne _ m hm)
    obtain ⟨d, -, rfl⟩ := exists_of_matchAt? hm
    exact ⟨rfl, Nat.lt_add_of_pos_right hpos⟩
  have hlength : ∀ {offset : Nat} {x : Char} {before : List Char},
      offset + (x :: before).length = offset + 1 + before.length := by
    intro offset x before
    rw [List.length_cons]
    omega
  fun_induction scanFrom p last offset skip xs generalizing before with
  | case1 last offset =>
    obtain ⟨rfl, rfl⟩ := List.nil_eq_append_iff.mp hxs
    obtain ⟨m, hm⟩ := Option.isSome_iff_exists.mp hm
    obtain ⟨hstart, hstop⟩ := hfirst hm
    exact ⟨m, Option.mem_toList.mpr hm, Nat.le_of_eq hstart, hstop⟩
  | case2 last offset skip hpos =>
    obtain ⟨rfl, rfl⟩ := List.nil_eq_append_iff.mp hxs
    exact absurd (Nat.le_zero.mp hskip) hpos
  | case3 last offset x xs skip ih =>
    cases before with
    | nil => exact absurd hskip (Nat.not_succ_le_zero skip)
    | cons y before =>
      obtain ⟨rfl, hrest⟩ := List.cons.inj hxs
      rw [hlength] at hm ⊢
      exact ih hrest (Nat.le_of_succ_le_succ hskip) hm
  | case4 last offset x xs m hmatch ih =>
    obtain ⟨hstart, hstop⟩ := hfirst hmatch
    have hend : m.stop = m.whole.start + m.whole.text.length := rfl
    by_cases hbefore : offset + before.length < m.stop
    · exact ⟨m, List.mem_cons_self, by omega, hbefore⟩
    · cases before with
      | nil => exact absurd hstop hbefore
      | cons y before =>
        obtain ⟨rfl, hrest⟩ := List.cons.inj hxs
        rw [hlength] at hm hbefore ⊢
        obtain ⟨n, hn, hcovers⟩ := ih hrest (by omega) hm
        exact ⟨n, List.mem_cons_of_mem m hn, hcovers⟩
  | case5 last offset x xs hnone ih =>
    cases before with
    | nil =>
      obtain rfl : rest = x :: xs := hxs.symm
      have hsome : (p.matchAt? ⟨last, x :: xs, offset, none⟩).isSome = true := hm
      simp [hnone] at hsome
    | cons y before =>
      obtain ⟨rfl, hrest⟩ := List.cons.inj hxs
      rw [hlength] at hm ⊢
      exact ih hrest (Nat.zero_le _) hm

/-- **No match is missed**: where a pattern matches that never matches the empty piece, there is one match of the scan
around the place. -/
theorem existsUnique_mem_scan {text : List Char} {offset : Nat} (hoffset : offset ≤ text.length)
    (hm : (p.matchAt? (Cursor.ofOffset text offset)).isSome = true) :
    ∃! m, m ∈ p.scan text ∧ m.whole.start ≤ offset ∧ offset < m.stop := by
  have hlength : (text.take offset).length = offset := List.length_take_of_le hoffset
  have hplace : Cursor.ofOffset text offset =
      ⟨Cursor.lastOf none (text.take offset), text.drop offset, 0 + (text.take offset).length, none⟩ := by
    rw [hlength, Nat.zero_add]
    rfl
  rw [hplace] at hm
  obtain ⟨m, hmem, hstart, hstop⟩ := exists_mem_scanFrom hne (List.take_append_drop offset text).symm (Nat.zero_le _) hm
  rw [hlength, Nat.zero_add] at hstart hstop
  refine ⟨m, ⟨hmem, hstart, hstop⟩, ?_⟩
  rintro n ⟨hn, hstart', hstop'⟩
  by_contra hdiffer
  rcases disjoint_of_mem_scan hn hmem hdiffer with hle | hle
  · omega
  · omega

end Covering

end Pattern

end Conformance
