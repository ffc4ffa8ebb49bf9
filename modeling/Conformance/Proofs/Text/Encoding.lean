import Mathlib.Data.List.Forall2
import Mathlib.Data.List.Induction
import Conformance.Proofs.Text.Utf8
import Conformance.Text.Line

/-!
# Encoding and decoding UTF-8

The bytes of a character are what the ranges of the first of them allow, and they stand for its code point
(`isEncoding_encodeChar`, `IsEncoding.encodeChar_eq`). So a text is read back from its bytes (`decode_encode`), and the
byte sequences without an invalid piece are those of texts (`firstInvalid?_eq_none_iff`). In all others, the first
invalid piece comes where the bytes of a text end and no character begins (`exists_of_forall_ne_encode`).

The bytes of a text have its lines (`count_encode`, `lastLine_encode`), which are as long as in the text iff they are of
ASCII (`length_le_length_encode`).
-/

namespace Conformance.Text.Utf8

/-- The bytes of a text. -/
def encode (cs : List Char) : List UInt8 := cs.flatMap String.utf8EncodeChar

/-! ## Characters -/

/-- The bytes lie in the ranges, one in each. -/
abbrev Fits (ranges : List (UInt8 × UInt8)) (bs : List UInt8) : Prop :=
  List.Forall₂ (fun r b => r.1.toNat ≤ b.toNat ∧ b.toNat ≤ r.2.toNat) ranges bs

theorem Fits.fitting_append {ranges : List (UInt8 × UInt8)} {bs : List UInt8} (h : Fits ranges bs)
    (rest : List UInt8) : fitting ranges (bs ++ rest) = ranges.length := by
  induction h with
  | nil => cases rest <;> rfl
  | @cons r b ranges bs hr _ ih =>
    rw [List.cons_append, fitting, if_pos (by simpa [UInt8.le_iff_toNat_le] using hr), ih, List.length_cons]

theorem fits_take_of_fitting {ranges : List (UInt8 × UInt8)} {bs : List UInt8}
    (h : fitting ranges bs = ranges.length) : Fits ranges (bs.take ranges.length) := by
  induction ranges generalizing bs with
  | nil => simp
  | cons r ranges ih =>
    obtain ⟨t, ts, rfl, hlo, hhi, hrest⟩ := fitting_cons_eq_length_iff.mp h
    exact .cons ⟨UInt8.le_iff_toNat_le.mp hlo, UInt8.le_iff_toNat_le.mp hhi⟩ (ih hrest)

/-- The ranges, by the number of the first byte. -/
theorem continuation?_eq (b : UInt8) : continuation? b =
    let n := b.toNat
    let tail := (0x80, 0xBF)
    if n < 0x80 then some []
    else if n < 0xC2 then none
    else if n < 0xE0 then some [tail]
    else if n = 0xE0 then some [(0xA0, 0xBF), tail]
    else if n = 0xED then some [(0x80, 0x9F), tail]
    else if n < 0xF0 then some [tail, tail]
    else if n = 0xF0 then some [(0x90, 0xBF), tail, tail]
    else if n < 0xF4 then some [tail, tail, tail]
    else if n = 0xF4 then some [(0x80, 0x8F), tail, tail]
    else none := by
  simp only [continuation?, UInt8.lt_iff_toNat_lt, ← UInt8.toNat_inj]
  rfl

theorem toNat_ofNat_of_lt {k : Nat} (h : k < 256) : (UInt8.ofNat k).toNat = k := UInt8.toNat_ofNat_of_lt h

/-- The bytes that encode a character, by its number. -/
theorem encodeChar_eq (c : Char) : String.utf8EncodeChar c =
    if c.toNat ≤ 0x7F then [.ofNat c.toNat]
    else if c.toNat ≤ 0x7FF then [.ofNat (c.toNat / 64 % 32 + 192), .ofNat (c.toNat % 64 + 128)]
    else if c.toNat ≤ 0xFFFF then
      [.ofNat (c.toNat / 4096 % 16 + 224), .ofNat (c.toNat / 64 % 64 + 128), .ofNat (c.toNat % 64 + 128)]
    else
      [.ofNat (c.toNat / 262144 % 8 + 240), .ofNat (c.toNat / 4096 % 64 + 128), .ofNat (c.toNat / 64 % 64 + 128),
        .ofNat (c.toNat % 64 + 128)] := rfl

/-- The ranges of the first byte hold the others, and together they stand for a code point. -/
def IsEncoding (b : UInt8) (bs : List UInt8) (n : Nat) : Prop :=
  ∃ ranges, continuation? b = some ranges ∧ Fits ranges bs ∧ codePoint b bs = n

section Leads

variable {b : UInt8} {n : Nat}

/-- The second of three bytes lies in the range that keeps out shorter encodings and surrogates. -/
theorem exists_continuation?_three (hb : b.toNat = n / 4096 % 16 + 224) (hlow : 0x7FF < n)
    (hvalid : n < 0xD800 ∨ 0xDFFF < n) (hhigh : n ≤ 0xFFFF) : ∃ lo hi,
    continuation? b = some [(lo, hi), (0x80, 0xBF)] ∧ lo.toNat ≤ n / 64 % 64 + 128 ∧ n / 64 % 64 + 128 ≤ hi.toNat := by
  simp only [continuation?_eq, hb]
  by_cases hE0 : n / 4096 % 16 = 0
  · refine ⟨0xA0, 0xBF, by simp [hE0], ?_, ?_⟩ <;> (simp; omega)
  by_cases hED : n / 4096 % 16 = 13
  · refine ⟨0x80, 0x9F, by simp [hED], by simp, by simp; omega⟩
  refine ⟨0x80, 0xBF, ?_, by simp, by simp; omega⟩
  rw [if_neg (by omega), if_neg (by omega), if_neg (by omega), if_neg (by omega), if_neg (by omega),
    if_pos (by omega)]

/-- The second of four bytes lies in the range that keeps out shorter encodings and what is no code point. -/
theorem exists_continuation?_four (hb : b.toNat = n / 262144 % 8 + 240) (hlow : 0xFFFF < n) (hhigh : n < 0x110000) :
    ∃ lo hi, continuation? b = some [(lo, hi), (0x80, 0xBF), (0x80, 0xBF)] ∧
      lo.toNat ≤ n / 4096 % 64 + 128 ∧ n / 4096 % 64 + 128 ≤ hi.toNat := by
  simp only [continuation?_eq, hb]
  by_cases hF0 : n / 262144 % 8 = 0
  · refine ⟨0x90, 0xBF, by simp [hF0], ?_, ?_⟩ <;> (simp; omega)
  by_cases hF4 : n / 262144 % 8 = 4
  · refine ⟨0x80, 0x8F, by simp [hF4], by simp, by simp; omega⟩
  refine ⟨0x80, 0xBF, ?_, by simp, by simp; omega⟩
  rw [if_neg (by omega), if_neg (by omega), if_neg (by omega), if_neg (by omega), if_neg (by omega),
    if_neg (by omega), if_neg (by omega), if_pos (by omega)]

end Leads

/-- The bytes of a character encode its code point. -/
theorem isEncoding_encodeChar (c : Char) :
    ∃ b bs, String.utf8EncodeChar c = b :: bs ∧ IsEncoding b bs c.toNat := by
  have hvalid : c.toNat < 0xD800 ∨ 0xDFFF < c.toNat ∧ c.toNat < 0x110000 := c.valid
  rw [encodeChar_eq]
  generalize c.toNat = n at *
  have htail : ∀ k, (UInt8.ofNat (k % 64 + 128)).toNat = k % 64 + 128 := fun k => toNat_ofNat_of_lt (by omega)
  have hfit : ∀ k, (0x80 : UInt8).toNat ≤ (UInt8.ofNat (k % 64 + 128)).toNat ∧
      (UInt8.ofNat (k % 64 + 128)).toNat ≤ (0xBF : UInt8).toNat := by
    intro k
    rw [htail]
    exact ⟨Nat.le_add_left _ _, by simp; omega⟩
  by_cases hone : n ≤ 0x7F
  · rw [if_pos hone]
    have hb := toNat_ofNat_of_lt (k := n) (by omega)
    refine ⟨_, _, rfl, [], ?_, .nil, hb⟩
    simp only [continuation?_eq, hb]
    rw [if_pos (by omega)]
  rw [if_neg hone]
  by_cases htwo : n ≤ 0x7FF
  · rw [if_pos htwo]
    have hb := toNat_ofNat_of_lt (k := n / 64 % 32 + 192) (by omega)
    refine ⟨_, _, rfl, [(0x80, 0xBF)], ?_, .cons (hfit _) .nil, ?_⟩
    · simp only [continuation?_eq, hb]
      rw [if_neg (by omega), if_neg (by omega), if_pos (by omega)]
    · simp only [codePoint, leadBits, List.length_cons, List.length_nil, List.foldl_nil, List.foldl_cons, hb, htail]
      omega
  rw [if_neg htwo]
  by_cases hthree : n ≤ 0xFFFF
  · rw [if_pos hthree]
    have hb := toNat_ofNat_of_lt (k := n / 4096 % 16 + 224) (by omega)
    obtain ⟨lo, hi, hranges, hlo, hhi⟩ := exists_continuation?_three hb (by omega) (by omega) hthree
    refine ⟨_, _, rfl, _, hranges, .cons ?_ (.cons (hfit _) .nil), ?_⟩
    · rw [htail]
      exact ⟨hlo, hhi⟩
    · simp only [codePoint, leadBits, List.length_cons, List.length_nil, List.foldl_nil, List.foldl_cons, hb, htail]
      omega
  · rw [if_neg hthree]
    have hb := toNat_ofNat_of_lt (k := n / 262144 % 8 + 240) (by omega)
    obtain ⟨lo, hi, hranges, hlo, hhi⟩ := exists_continuation?_four hb (by omega) (by omega)
    refine ⟨_, _, rfl, _, hranges, .cons ?_ (.cons (hfit _) (.cons (hfit _) .nil)), ?_⟩
    · rw [htail]
      exact ⟨hlo, hhi⟩
    · simp only [codePoint, leadBits, List.length_cons, List.length_nil, List.foldl_nil, List.foldl_cons, hb, htail]
      omega

theorem toNat_ofNat_of_valid {n : Nat} (h : n.isValidChar) : (Char.ofNat n).toNat = n := by
  rw [Char.ofNat, dif_pos h]
  rfl

section Bytes

variable {b t u v : UInt8} {c : Char}

theorem ofNat_eq_of_toNat {k : Nat} (h : b.toNat = k) : UInt8.ofNat k = b := by
  rw [← h, UInt8.ofNat_toNat]

theorem encodeChar_eq_one (hb : b.toNat < 0x80) (hc : c.toNat = b.toNat) : String.utf8EncodeChar c = [b] := by
  rw [encodeChar_eq, hc, if_pos (by omega), UInt8.ofNat_toNat]

theorem encodeChar_eq_two (hb : b.toNat < 0xE0) (hb' : 0xC2 ≤ b.toNat) (ht : 0x80 ≤ t.toNat ∧ t.toNat ≤ 0xBF)
    (hc : c.toNat = b.toNat % 32 * 64 + t.toNat % 64) : String.utf8EncodeChar c = [b, t] := by
  rw [encodeChar_eq, if_neg (by omega), if_pos (by omega), ofNat_eq_of_toNat (b := b) (by omega),
    ofNat_eq_of_toNat (b := t) (by omega)]

theorem encodeChar_eq_three (hb : b.toNat < 0xF0) (hb' : 0xE0 ≤ b.toNat) (ht : 0x80 ≤ t.toNat ∧ t.toNat ≤ 0xBF)
    (hu : 0x80 ≤ u.toNat ∧ u.toNat ≤ 0xBF) (hlow : 0x7FF < c.toNat)
    (hc : c.toNat = (b.toNat % 16 * 64 + t.toNat % 64) * 64 + u.toNat % 64) :
    String.utf8EncodeChar c = [b, t, u] := by
  rw [encodeChar_eq, if_neg (by omega), if_neg (by omega), if_pos (by omega), ofNat_eq_of_toNat (b := b) (by omega),
    ofNat_eq_of_toNat (b := t) (by omega), ofNat_eq_of_toNat (b := u) (by omega)]

theorem encodeChar_eq_four (hb : b.toNat < 0xF8) (hb' : 0xF0 ≤ b.toNat) (ht : 0x80 ≤ t.toNat ∧ t.toNat ≤ 0xBF)
    (hu : 0x80 ≤ u.toNat ∧ u.toNat ≤ 0xBF) (hv : 0x80 ≤ v.toNat ∧ v.toNat ≤ 0xBF) (hlow : 0xFFFF < c.toNat)
    (hc : c.toNat = ((b.toNat % 8 * 64 + t.toNat % 64) * 64 + u.toNat % 64) * 64 + v.toNat % 64) :
    String.utf8EncodeChar c = [b, t, u, v] := by
  rw [encodeChar_eq, if_neg (by omega), if_neg (by omega), if_neg (by omega), ofNat_eq_of_toNat (b := b) (by omega),
    ofNat_eq_of_toNat (b := t) (by omega), ofNat_eq_of_toNat (b := u) (by omega),
    ofNat_eq_of_toNat (b := v) (by omega)]

end Bytes

theorem IsEncoding.isValidChar {b : UInt8} {bs : List UInt8} {n : Nat} (h : IsEncoding b bs n) : n.isValidChar := by
  obtain ⟨ranges, hranges, hfits, rfl⟩ := h
  rcases eq_or_ne ranges [] with rfl | hne
  · obtain rfl := List.forall₂_nil_left_iff.mp hfits
    have hb := UInt8.lt_iff_toNat_lt.mp (continuation?_eq_nil_iff.mp hranges)
    exact .inl (Nat.lt_trans hb (by decide))
  · have hall := hfits.fitting_append []
    rw [List.append_nil] at hall
    have hvalid := (codePoint_of_fitting hranges hne hall).1
    rwa [hfits.length_eq, List.take_length] at hvalid

/-- The bytes of a code point are those of its character. -/
theorem IsEncoding.encodeChar_eq {b : UInt8} {bs : List UInt8} {c : Char} (h : IsEncoding b bs c.toNat) :
    String.utf8EncodeChar c = b :: bs := by
  obtain ⟨ranges, hranges, hfits, hc⟩ := h
  simp only [continuation?_eq] at hranges
  repeat' split at hranges
  all_goals cases hranges
  all_goals simp only [List.forall₂_cons_left_iff, List.forall₂_nil_left_iff, UInt8.reduceToNat] at hfits
  -- one byte and two
  · subst hfits
    exact encodeChar_eq_one (by omega) hc.symm
  · obtain ⟨t, _, ht, rfl, rfl⟩ := hfits
    exact encodeChar_eq_two (by omega) (by omega) ht hc.symm
  -- three bytes
  iterate 3
    obtain ⟨t, _, ht, ⟨u, _, hu, rfl, rfl⟩, rfl⟩ := hfits
    simp only [codePoint, leadBits, List.length_cons, List.length_nil, List.foldl_nil, List.foldl_cons] at hc
    exact encodeChar_eq_three (by omega) (by omega) (by omega) hu (by omega) hc.symm
  -- four bytes
  iterate 3
    obtain ⟨t, _, ht, ⟨u, _, hu, ⟨v, _, hv, rfl, rfl⟩, rfl⟩, rfl⟩ := hfits
    simp only [codePoint, leadBits, List.length_cons, List.length_nil, List.foldl_nil, List.foldl_cons] at hc
    exact encodeChar_eq_four (by omega) (by omega) (by omega) hu hv (by omega) hc.symm

/-! ## Pieces -/

theorem IsEncoding.piece_append {b : UInt8} {bs : List UInt8} {c : Char} (h : IsEncoding b bs c.toNat)
    (rest : List UInt8) : piece b (bs ++ rest) = (some c, bs.length) := by
  obtain ⟨ranges, hranges, hfits, hpoint⟩ := h
  simp only [piece, hranges, hfits.fitting_append, hfits.length_eq, ↓reduceIte, List.take_left', hpoint,
    Char.ofNat_toNat]

/-- **The bytes of a character are a piece**, whatever follows them. -/
theorem exists_piece_encodeChar (c : Char) :
    ∃ b bs, String.utf8EncodeChar c = b :: bs ∧ ∀ rest, piece b (bs ++ rest) = (some c, bs.length) := by
  obtain ⟨b, bs, hbytes, hencoding⟩ := isEncoding_encodeChar c
  exact ⟨b, bs, hbytes, hencoding.piece_append⟩

/-- **A piece with a character holds the bytes of the character.** -/
theorem encodeChar_of_piece {b : UInt8} {bs : List UInt8} {c : Char} (h : (piece b bs).1 = some c) :
    String.utf8EncodeChar c = b :: bs.take (piece b bs).2 := by
  rw [piece] at h ⊢
  cases hranges : continuation? b with
  | none => simp [hranges] at h
  | some ranges =>
    simp only [hranges] at h ⊢
    split at h
    · rename_i hfits
      obtain rfl := Option.some.inj h
      rw [hfits]
      have hencoding : IsEncoding b (bs.take ranges.length) (codePoint b (bs.take ranges.length)) :=
        ⟨ranges, hranges, fits_take_of_fitting hfits, rfl⟩
      refine IsEncoding.encodeChar_eq ?_
      rwa [toNat_ofNat_of_valid hencoding.isValidChar]
    · cases h

/-! ## Texts -/

section Texts

variable {cs : List Char} {bytes rest : List UInt8}

theorem encode_cons (c : Char) (cs : List Char) : encode (c :: cs) = String.utf8EncodeChar c ++ encode cs := rfl

theorem encode_append (cs ds : List Char) : encode (cs ++ ds) = encode cs ++ encode ds := List.flatMap_append

theorem decode_encode_append (cs : List Char) (rest : List UInt8) : decode (encode cs ++ rest) = cs ++ decode rest := by
  induction cs with
  | nil => rfl
  | cons c cs ih =>
    obtain ⟨b, bs, hbytes, hpiece⟩ := exists_piece_encodeChar c
    rw [encode_cons, hbytes, List.cons_append, List.cons_append, List.append_assoc, decode_cons, hpiece,
      List.drop_left, ih]
    rfl

theorem firstInvalid?_encode_append (cs : List Char) (rest : List UInt8) :
    firstInvalid? (encode cs ++ rest) = (firstInvalid? rest).map (· + (encode cs).length) := by
  induction cs with
  | nil => simp [encode]
  | cons c cs ih =>
    obtain ⟨b, bs, hbytes, hpiece⟩ := exists_piece_encodeChar c
    rw [encode_cons, hbytes, List.cons_append, List.cons_append, List.append_assoc, firstInvalid?_cons, hpiece,
      List.drop_left, ih]
    simp only [Option.isSome_some, ↓reduceIte, Option.map_map, List.length_cons, List.length_append]
    refine congrArg (Option.map · _) (funext fun n => ?_)
    simp only [Function.comp_apply]
    omega

/-- **A text is read back from its bytes.** -/
theorem decode_encode (cs : List Char) : decode (encode cs) = cs := by
  have h := decode_encode_append cs []
  rwa [List.append_nil, show decode [] = [] by simp [decode, pieces], List.append_nil] at h

theorem firstInvalid?_encode (cs : List Char) : firstInvalid? (encode cs) = none := by
  have h := firstInvalid?_encode_append cs []
  rwa [List.append_nil, firstInvalid?_nil] at h

/-- No character begins here, though there are bytes. -/
def IsBroken (bytes : List UInt8) : Prop := bytes ≠ [] ∧ ∀ c, ¬ String.utf8EncodeChar c <+: bytes

theorem isBroken_cons_iff {b : UInt8} {bs : List UInt8} : IsBroken (b :: bs) ↔ (piece b bs).1 = none := by
  constructor
  · intro h
    rw [Option.eq_none_iff_forall_ne_some]
    intro c hc
    refine h.2 c ⟨bs.drop (piece b bs).2, ?_⟩
    rw [encodeChar_of_piece hc, List.cons_append, List.take_append_drop]
  · intro h
    refine ⟨List.cons_ne_nil b bs, fun c hprefix => ?_⟩
    obtain ⟨a, as, hbytes, hpiece⟩ := exists_piece_encodeChar c
    obtain ⟨rest, hrest⟩ := hprefix
    rw [hbytes, List.cons_append, List.cons.injEq] at hrest
    obtain ⟨rfl, rfl⟩ := hrest
    rw [hpiece] at h
    cases h

/-- What comes before the first invalid piece is the bytes of a text. -/
theorem exists_encode_append (bytes : List UInt8) :
    ∃ cs rest, bytes = encode cs ++ rest ∧ (rest = [] ∨ IsBroken rest) := by
  induction bytes using pieces.induct with
  | case1 => exact ⟨[], [], rfl, .inl rfl⟩
  | case2 b bs c n hpiece ih =>
    obtain ⟨rfl, rfl⟩ : (piece b bs).1 = c ∧ (piece b bs).2 = n := by simp [hpiece]
    cases hc : (piece b bs).1 with
    | none => exact ⟨[], b :: bs, rfl, .inr (isBroken_cons_iff.mpr hc)⟩
    | some c =>
      obtain ⟨cs, rest, hsplit, hrest⟩ := ih
      refine ⟨c :: cs, rest, ?_, hrest⟩
      rw [encode_cons, encodeChar_of_piece hc, List.append_assoc, ← hsplit, List.cons_append, List.take_append_drop]

theorem IsBroken.firstInvalid?_eq (h : IsBroken rest) : firstInvalid? rest = some 0 := by
  cases rest with
  | nil => exact absurd rfl h.1
  | cons b bs =>
    rw [firstInvalid?_cons, isBroken_cons_iff.mp h]
    rfl

theorem IsBroken.exists_decode_eq (h : IsBroken rest) : ∃ cs, decode rest = '\uFFFD' :: cs := by
  cases rest with
  | nil => exact absurd rfl h.1
  | cons b bs =>
    rw [decode_cons, isBroken_cons_iff.mp h]
    exact ⟨_, rfl⟩

/-- **The bytes without an invalid piece are those of texts.** -/
theorem firstInvalid?_eq_none_iff : firstInvalid? bytes = none ↔ ∃ cs, bytes = encode cs := by
  constructor
  · intro h
    obtain ⟨cs, rest, rfl, rfl | hrest⟩ := exists_encode_append bytes
    · exact ⟨cs, List.append_nil _⟩
    · rw [firstInvalid?_encode_append, hrest.firstInvalid?_eq] at h
      cases h
  · rintro ⟨cs, rfl⟩
    exact firstInvalid?_encode cs

theorem IsBroken.append_ne_encode (h : IsBroken rest) (cs ds : List Char) : encode cs ++ rest ≠ encode ds := by
  intro heq
  have hnone := firstInvalid?_encode ds
  rw [← heq, firstInvalid?_encode_append, h.firstInvalid?_eq] at hnone
  cases hnone

/-- **The first invalid piece** comes behind the bytes of a text, where no character begins. The text is read, and then
comes the first replacement. -/
theorem exists_of_forall_ne_encode (h : ∀ cs, bytes ≠ encode cs) : ∃ cs rest, bytes = encode cs ++ rest ∧
    IsBroken rest ∧ firstInvalid? bytes = some (encode cs).length ∧ ∃ ds, decode bytes = cs ++ '\uFFFD' :: ds := by
  obtain ⟨cs, rest, rfl, rfl | hrest⟩ := exists_encode_append bytes
  · exact absurd (List.append_nil _) (h cs)
  · obtain ⟨ds, hds⟩ := hrest.exists_decode_eq
    refine ⟨cs, rest, rfl, hrest, ?_, ds, ?_⟩
    · rw [firstInvalid?_encode_append, hrest.firstInvalid?_eq, Option.map_some, Nat.zero_add]
    · rw [decode_encode_append, hds]

end Texts

/-! ## Lines -/

section Lines

variable {c : Char}

theorem encodeChar_of_lt (hc : c.toNat < 0x80) : String.utf8EncodeChar c = [.ofNat c.toNat] := by
  rw [encodeChar_eq, if_pos (by omega)]

/-- The bytes of a character that is not of ASCII are not of ASCII either, and there are several. -/
theorem encodeChar_of_not_lt (hc : ¬ c.toNat < 0x80) :
    1 < (String.utf8EncodeChar c).length ∧ ∀ b ∈ String.utf8EncodeChar c, ¬ b < 0x80 := by
  have hbyte : ∀ k m, 128 ≤ m → k + m < 256 → ¬ UInt8.ofNat (k + m) < 0x80 := by
    intro k m hm hlt
    rw [UInt8.lt_iff_toNat_lt, toNat_ofNat_of_lt hlt]
    exact Nat.not_lt.mpr (Nat.le_add_left_of_le hm)
  rw [encodeChar_eq, if_neg (by omega)]
  split
  · refine ⟨by simp, ?_⟩
    simp only [List.forall_mem_cons]
    exact ⟨hbyte _ _ (by omega) (by omega), hbyte _ _ (by omega) (by omega), List.forall_mem_nil _⟩
  split
  · refine ⟨by simp, ?_⟩
    simp only [List.forall_mem_cons]
    exact ⟨hbyte _ _ (by omega) (by omega), hbyte _ _ (by omega) (by omega), hbyte _ _ (by omega) (by omega),
      List.forall_mem_nil _⟩
  · refine ⟨by simp, ?_⟩
    simp only [List.forall_mem_cons]
    exact ⟨hbyte _ _ (by omega) (by omega), hbyte _ _ (by omega) (by omega), hbyte _ _ (by omega) (by omega),
      hbyte _ _ (by omega) (by omega), List.forall_mem_nil _⟩

/-- The byte of a line feed comes from a line feed only. -/
theorem lineFeed_notMem_encodeChar (hc : c ≠ '\n') : 10 ∉ String.utf8EncodeChar c := by
  by_cases hlt : c.toNat < 0x80
  · rw [encodeChar_of_lt hlt, List.mem_singleton, ← UInt8.toNat_inj, toNat_ofNat_of_lt (by omega)]
    exact fun heq => hc (Char.toNat_inj.mp heq.symm)
  · exact fun hmem => (encodeChar_of_not_lt hlt).2 _ hmem (by decide)

theorem count_encode (cs : List Char) : (encode cs).count 10 = Text.lineFeeds cs := by
  induction cs with
  | nil => rfl
  | cons c cs ih =>
    rw [encode_cons, List.count_append, ih, Text.lineFeeds, Text.lineFeeds, List.count_cons]
    by_cases hc : c = '\n'
    · subst hc
      rw [encodeChar_of_lt (by decide)]
      simp [Nat.add_comm]
    · rw [List.count_eq_zero.mpr (lineFeed_notMem_encodeChar hc)]
      simp [hc]

/-- What stands behind the last line feed. -/
def lastLine {α : Type} [BEq α] (lf : α) (xs : List α) : List α := (xs.reverse.takeWhile (· != lf)).reverse

/-- **The bytes behind the last line feed are those of the last line.** -/
theorem lastLine_encode (cs : List Char) : lastLine 10 (encode cs) = encode (lastLine '\n' cs) := by
  induction cs using List.reverseRecOn with
  | nil => rfl
  | append_singleton cs c ih =>
    rw [encode_append]
    by_cases hc : c = '\n'
    · subst hc
      simp [lastLine, encode, encodeChar_of_lt]
    · have hall : ∀ b ∈ (String.utf8EncodeChar c).reverse, (b != 10) = true := fun b hb =>
        bne_iff_ne.mpr fun heq => lineFeed_notMem_encodeChar hc (heq ▸ List.mem_reverse.mp hb)
      have hchar : encode [c] = String.utf8EncodeChar c := by simp [encode]
      have hstep : lastLine '\n' (cs ++ [c]) = lastLine '\n' cs ++ [c] := by
        simp [lastLine, hc]
      rw [hstep, encode_append, ← ih, hchar, lastLine, List.reverse_append, List.takeWhile_append_of_pos hall,
        List.reverse_append, List.reverse_reverse, lastLine]

theorem length_le_length_encode (cs : List Char) : cs.length ≤ (encode cs).length ∧
    (cs.length = (encode cs).length ↔ ∀ b ∈ encode cs, b < 0x80) := by
  induction cs with
  | nil => simp [encode]
  | cons c cs ih =>
    obtain ⟨hle, hiff⟩ := ih
    rw [encode_cons, List.length_append, List.length_cons]
    by_cases hc : c.toNat < 0x80
    · have hb : UInt8.ofNat c.toNat < 0x80 := by
        rw [UInt8.lt_iff_toNat_lt, toNat_ofNat_of_lt (by omega)]
        exact hc
      rw [encodeChar_of_lt hc, List.length_singleton, List.singleton_append, List.forall_mem_cons, ← hiff]
      exact ⟨by omega, ⟨fun h => ⟨hb, by omega⟩, fun h => by omega⟩⟩
    · obtain ⟨hlength, hbytes⟩ := encodeChar_of_not_lt hc
      refine ⟨by omega, iff_of_false (by omega) fun hall => ?_⟩
      obtain ⟨b, bs, hchar, -⟩ := exists_piece_encodeChar c
      have hmem : b ∈ String.utf8EncodeChar c := hchar ▸ List.mem_cons_self
      exact hbytes b hmem (hall b (List.mem_append_left _ hmem))

end Lines

end Conformance.Text.Utf8
