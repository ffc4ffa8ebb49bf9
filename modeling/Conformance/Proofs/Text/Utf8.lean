import Conformance.Text.Utf8

/-!
# Pieces of UTF-8

A byte below `0x80` is a character of its own, with its number (`piece_of_lt`, `toNat_of_piece`). In all other pieces,
only bytes from `0x80` on follow (`le_of_mem_take_piece`), and their characters lie from there on too (`le_of_piece`).
What is read from bytes is read piece by piece (`decode_cons`, `firstInvalid?_cons`).
-/

namespace Conformance.Text.Utf8

/-! ## Characters -/

/-- All ranges hold bytes only that follow another byte. -/
def Follow (ranges : List (UInt8 × UInt8)) : Prop := ∀ r ∈ ranges, 0x80 ≤ r.1

theorem follow_of_continuation? {b : UInt8} {ranges : List (UInt8 × UInt8)} (h : continuation? b = some ranges) :
    Follow ranges := by
  unfold continuation? at h
  dsimp only at h
  repeat' split at h
  all_goals cases h <;> simp [Follow]

theorem continuation?_eq_nil_iff {b : UInt8} : continuation? b = some [] ↔ b < 0x80 := by
  unfold continuation?
  dsimp only
  by_cases hb : b < 0x80
  · simp [hb]
  · rw [if_neg hb]
    repeat' split
    all_goals simp [hb]

theorem fitting_cons_eq_length_iff {r : UInt8 × UInt8} {ranges : List (UInt8 × UInt8)} {bs : List UInt8} :
    fitting (r :: ranges) bs = (r :: ranges).length ↔
      ∃ t ts, bs = t :: ts ∧ r.1 ≤ t ∧ t ≤ r.2 ∧ fitting ranges ts = ranges.length := by
  cases bs with
  | nil => simp [fitting]
  | cons t ts =>
    by_cases ht : r.1 ≤ t ∧ t ≤ r.2
    · simp only [fitting, ht, Bool.and_self, decide_true, ↓reduceIte, List.length_cons, Nat.add_right_cancel_iff]
      exact ⟨fun h => ⟨t, ts, rfl, ht.1, ht.2, h⟩, fun ⟨_, _, heq, _, _, h⟩ => (List.cons.inj heq).2 ▸ h⟩
    · simp only [fitting, List.length_cons]
      grind

/-- **A character of several bytes** has a code point from `0x80` on, and it is that of a character. -/
theorem codePoint_of_fitting {b : UInt8} {ranges : List (UInt8 × UInt8)} {bs : List UInt8}
    (h : continuation? b = some ranges) (hne : ranges ≠ []) (hfits : fitting ranges bs = ranges.length) :
    (codePoint b (bs.take ranges.length)).isValidChar ∧ 0x80 ≤ codePoint b (bs.take ranges.length) := by
  unfold continuation? at h
  dsimp only at h
  repeat' split at h
  all_goals
    cases h
    try exact absurd rfl hne
  all_goals
    simp only [fitting_cons_eq_length_iff, UInt8.lt_iff_toNat_lt, UInt8.le_iff_toNat_le, ← UInt8.toNat_inj] at *
  -- first bytes of two, of three and of four bytes
  · obtain ⟨t, ts, rfl, ht, ht', -⟩ := hfits
    simp [codePoint, leadBits, Nat.isValidChar] at *
    omega
  iterate 3
    obtain ⟨t, ts, rfl, ht, ht', u, us, rfl, hu, hu', -⟩ := hfits
    simp [codePoint, leadBits, Nat.isValidChar] at *
    omega
  iterate 3
    obtain ⟨t, ts, rfl, ht, ht', u, us, rfl, hu, hu', v, vs, rfl, hv, hv', -⟩ := hfits
    simp [codePoint, leadBits, Nat.isValidChar] at *
    omega

/-! ## Pieces -/

section Piece

variable {b : UInt8} {bs : List UInt8}

theorem piece_of_lt (hb : b < 0x80) (bs : List UInt8) : piece b bs = (some (Char.ofNat b.toNat), 0) := by
  simp [piece, continuation?_eq_nil_iff.mpr hb, fitting, codePoint, leadBits]

theorem toNat_of_piece (hb : b < 0x80) {c : Char} (hc : (piece b bs).1 = some c) : c.toNat = b.toNat := by
  have hvalid : b.toNat.isValidChar := .inl (by have := UInt8.lt_iff_toNat_lt.mp hb; simp at this; omega)
  rw [piece_of_lt hb, Option.some.injEq] at hc
  rw [← hc, Char.ofNat, dif_pos hvalid]
  rfl

theorem le_of_piece (hb : ¬ b < 0x80) {c : Char} (hc : (piece b bs).1 = some c) : 0x80 ≤ c.toNat := by
  rw [piece] at hc
  cases hranges : continuation? b with
  | none => simp [hranges] at hc
  | some ranges =>
    have hne : ranges ≠ [] := by
      rintro rfl
      exact hb (continuation?_eq_nil_iff.mp hranges)
    simp only [hranges] at hc
    split at hc
    · rename_i hfits
      obtain ⟨hvalid, hle⟩ := codePoint_of_fitting hranges hne hfits
      rw [hfits, Option.some.injEq] at hc
      rw [← hc, Char.ofNat, dif_pos hvalid]
      exact hle
    · cases hc

theorem le_of_mem_take_fitting {ranges : List (UInt8 × UInt8)} (h : Follow ranges) {x : UInt8}
    (hx : x ∈ bs.take (fitting ranges bs)) : 0x80 ≤ x := by
  induction ranges generalizing bs with
  | nil => simp [fitting] at hx
  | cons r ranges ih =>
    cases bs with
    | nil => simp at hx
    | cons t ts =>
      obtain ⟨hr, hranges⟩ := List.forall_mem_cons.mp h
      rw [fitting] at hx
      split at hx
      · rename_i ht
        obtain ⟨ht, -⟩ : r.1 ≤ t ∧ t ≤ r.2 := by simpa using ht
        rw [List.take_succ_cons, List.mem_cons] at hx
        rcases hx with rfl | hx
        · exact UInt8.le_trans hr ht
        · exact ih hranges hx
      · simp at hx

/-- The bytes of a piece after its first are none of ASCII. -/
theorem le_of_mem_take_piece {x : UInt8} (hx : x ∈ bs.take (piece b bs).2) : 0x80 ≤ x := by
  rw [piece] at hx
  cases hranges : continuation? b with
  | none => simp [hranges] at hx
  | some ranges =>
    simp only [hranges] at hx
    exact le_of_mem_take_fitting (follow_of_continuation? hranges) hx

end Piece

/-! ## Reading -/

theorem decode_cons (b : UInt8) (bs : List UInt8) :
    decode (b :: bs) = (piece b bs).1.getD '\uFFFD' :: decode (bs.drop (piece b bs).2) := by
  rw [decode, pieces]
  rfl

theorem firstInvalid?_nil : firstInvalid? [] = none := by
  simp [firstInvalid?, pieces]

theorem foldl_length (ps : List (Option Char × Nat)) (k : Nat) :
    ps.foldl (fun n p => n + p.2) k = k + ps.foldl (fun n p => n + p.2) 0 := by
  induction ps generalizing k with
  | nil => rfl
  | cons p ps ih =>
    rw [List.foldl_cons, List.foldl_cons, ih, ih (0 + p.2)]
    omega

/-- **The first invalid piece** is the first one, or the first of what follows it. -/
theorem firstInvalid?_cons (b : UInt8) (bs : List UInt8) : firstInvalid? (b :: bs) =
    if (piece b bs).1.isSome then (firstInvalid? (bs.drop (piece b bs).2)).map (· + ((piece b bs).2 + 1))
    else some 0 := by
  have hpieces : pieces (b :: bs) = ((piece b bs).1, (piece b bs).2 + 1) :: pieces (bs.drop (piece b bs).2) := by
    rw [pieces]
  rw [firstInvalid?, firstInvalid?, hpieces]
  by_cases hvalid : (piece b bs).1.isSome
  · simp only [hvalid, ↓reduceIte, List.takeWhile_cons, List.length_cons, Nat.add_right_cancel_iff, List.foldl_cons]
    split
    · rfl
    · rw [Option.map_some, foldl_length]
      congr 1
      omega
  · simp [hvalid]

end Conformance.Text.Utf8
