import Conformance.Text.Line
import Conformance.Proofs.Text.Utf8

/-!
# Line ends written with carriage returns

A file may end its lines with a carriage return and a line feed (`crlf` of its bytes). Reading bytes and putting in
carriage returns commute, whether the bytes are UTF-8 or not (`decode_crlf`), and the first invalid piece stays where it
is in its line (`firstInvalid?_crlf`). A text whose line ends are unified does not tell how they were written
(`unifyLineEnds_decode_crlf`), and positions do not either (`advance_crlf`).
-/

namespace Conformance.Text

/-! ## Lists -/

section PutBefore

variable {α : Type} [DecidableEq α]

/-- The list with `cr` put before every `lf`. -/
def putBefore (cr lf : α) : List α → List α
  | [] => []
  | x :: xs => if x = lf then cr :: lf :: putBefore cr lf xs else x :: putBefore cr lf xs

variable {cr lf : α}

@[simp] theorem putBefore_nil : putBefore cr lf [] = [] := rfl

@[simp] theorem putBefore_cons_self (xs : List α) : putBefore cr lf (lf :: xs) = cr :: lf :: putBefore cr lf xs :=
  if_pos rfl

theorem putBefore_cons_of_ne {x : α} (hx : x ≠ lf) (xs : List α) :
    putBefore cr lf (x :: xs) = x :: putBefore cr lf xs :=
  if_neg hx

@[simp] theorem putBefore_append (xs ys : List α) :
    putBefore cr lf (xs ++ ys) = putBefore cr lf xs ++ putBefore cr lf ys := by
  induction xs with
  | nil => rfl
  | cons x xs ih =>
    by_cases hx : x = lf
    · simp [hx, ih]
    · simp [putBefore_cons_of_ne hx, ih]

theorem putBefore_of_notMem {xs : List α} (h : lf ∉ xs) : putBefore cr lf xs = xs := by
  induction xs with
  | nil => rfl
  | cons x xs ih =>
    obtain ⟨hx, hxs⟩ : lf ≠ x ∧ lf ∉ xs := by simpa using h
    rw [putBefore_cons_of_ne hx.symm, ih hxs]

theorem count_putBefore (hne : cr ≠ lf) (xs : List α) : (putBefore cr lf xs).count lf = xs.count lf := by
  induction xs with
  | nil => rfl
  | cons x xs ih =>
    by_cases hx : x = lf
    · simp [hx, ih, hne]
    · simp [putBefore_cons_of_ne hx, List.count_cons, ih]

/-- What follows the last `lf` stays the same. -/
theorem takeWhile_reverse_putBefore (xs : List α) :
    (putBefore cr lf xs).reverse.takeWhile (· != lf) = xs.reverse.takeWhile (· != lf) := by
  obtain ⟨ys, rfl⟩ : ∃ ys : List α, xs = ys.reverse := ⟨xs.reverse, by simp⟩
  induction ys with
  | nil => rfl
  | cons y ys ih =>
    rw [List.reverse_cons, putBefore_append]
    by_cases hy : y = lf
    · simp [hy]
    · simpa [putBefore_cons_of_ne hy, hy] using ih

end PutBefore

/-! ## Texts -/

/-- The text with a carriage return before every line feed. -/
def crlf (cs : List Char) : List Char := putBefore '\r' '\n' cs

@[simp] theorem crlf_nil : crlf [] = [] := rfl

@[simp] theorem crlf_lineFeed (cs : List Char) : crlf ('\n' :: cs) = '\r' :: '\n' :: crlf cs := putBefore_cons_self cs

theorem crlf_cons_of_ne {c : Char} (hc : c ≠ '\n') (cs : List Char) : crlf (c :: cs) = c :: crlf cs :=
  putBefore_cons_of_ne hc cs

@[simp] theorem crlf_append (cs ds : List Char) : crlf (cs ++ ds) = crlf cs ++ crlf ds := putBefore_append cs ds

theorem crlf_of_notMem {cs : List Char} (h : '\n' ∉ cs) : crlf cs = cs := putBefore_of_notMem h

/-- A text begins with what it began with, or with a carriage return for a line feed. -/
theorem head?_crlf (cs : List Char) : (crlf cs).head? = cs.head? ∨
    (crlf cs).head? = some '\r' ∧ cs.head? = some '\n' := by
  cases cs with
  | nil => exact .inl rfl
  | cons c cs =>
    by_cases hc : c = '\n'
    · subst hc
      exact .inr ⟨by simp, rfl⟩
    · exact .inl (by simp [crlf_cons_of_ne hc])

/-- A carriage return before a line feed is not seen behind it. -/
theorem Position.next_carriageReturn (p : Position) : (p.next '\r').next '\n' = p.next '\n' := rfl

/-- **Positions do not tell how lines end.** -/
theorem Position.advance_crlf (p : Position) (cs : List Char) : p.advance (crlf cs) = p.advance cs := by
  induction cs generalizing p with
  | nil => rfl
  | cons c cs ih =>
    by_cases hc : c = '\n'
    · subst hc
      have hline : p.advance ('\r' :: '\n' :: crlf cs) = ((p.next '\r').next '\n').advance (crlf cs) := rfl
      rw [crlf_lineFeed, hline, next_carriageReturn]
      exact ih (p.next '\n')
    · rw [crlf_cons_of_ne hc]
      exact ih (p.next c)

theorem unifyLineEnds_cons_of_ne {c : Char} (hc : c ≠ '\r') (cs : List Char) :
    unifyLineEnds (c :: cs) = c :: unifyLineEnds cs := by
  rw [unifyLineEnds.eq_def]
  split <;> simp_all

theorem unifyLineEnds_of_notMem {cs : List Char} (h : '\r' ∉ cs) : unifyLineEnds cs = cs := by
  induction cs with
  | nil => rfl
  | cons c cs ih =>
    obtain ⟨hc, hcs⟩ : '\r' ≠ c ∧ '\r' ∉ cs := by simpa using h
    rw [unifyLineEnds_cons_of_ne hc.symm, ih hcs]

/-- **Unified line ends do not tell how they were written.** -/
theorem unifyLineEnds_crlf {cs : List Char} (h : '\r' ∉ cs) : unifyLineEnds (crlf cs) = cs := by
  induction cs with
  | nil => rfl
  | cons c cs ih =>
    obtain ⟨hc, hcs⟩ : '\r' ≠ c ∧ '\r' ∉ cs := by simpa using h
    by_cases hlf : c = '\n'
    · subst hlf
      rw [crlf_lineFeed, unifyLineEnds, ih hcs]
    · rw [crlf_cons_of_ne hlf, unifyLineEnds_cons_of_ne hc.symm, ih hcs]

/-! ## Bytes -/

namespace Utf8

/-- The bytes with a carriage return before every line feed. -/
def crlf (bytes : List UInt8) : List UInt8 := putBefore 13 10 bytes

theorem crlf_cons_of_ne {b : UInt8} (hb : b ≠ 10) (bs : List UInt8) : crlf (b :: bs) = b :: crlf bs :=
  putBefore_cons_of_ne hb bs

theorem crlf_append (bs cs : List UInt8) : crlf (bs ++ cs) = crlf bs ++ crlf cs := putBefore_append bs cs

/-- The bytes that may follow another are not touched. -/
theorem crlf_fitting {ranges : List (UInt8 × UInt8)} (h : Follow ranges) (bs : List UInt8) :
    fitting ranges (crlf bs) = fitting ranges bs ∧
      (crlf bs).take (fitting ranges bs) = bs.take (fitting ranges bs) ∧
      (crlf bs).drop (fitting ranges bs) = crlf (bs.drop (fitting ranges bs)) := by
  induction ranges generalizing bs with
  | nil => simp [fitting]
  | cons r ranges ih =>
    obtain ⟨hr, hranges⟩ := List.forall_mem_cons.mp h
    cases bs with
    | nil => simp [fitting, crlf]
    | cons t ts =>
      by_cases ht : t = 10
      · -- neither a line feed nor a carriage return follows another byte
        have hlow : ∀ x : UInt8, x < 0x80 → ¬ r.1 ≤ x := fun x hx hle =>
          absurd (UInt8.lt_of_le_of_lt (UInt8.le_trans hr hle) hx) (by decide)
        subst ht
        simp [fitting, crlf, hlow 13 (by decide), hlow 10 (by decide)]
      · rw [crlf_cons_of_ne ht, fitting, fitting]
        obtain ⟨hfit, htake, hdrop⟩ := ih hranges ts
        split
        · simp [hfit, htake, hdrop]
        · simp [crlf_cons_of_ne ht]

/-- **A piece stays the same** unless it is a line feed, and so does what follows it. -/
theorem piece_crlf (b : UInt8) (bs : List UInt8) : piece b (crlf bs) = piece b bs ∧
    (crlf bs).take (piece b bs).2 = bs.take (piece b bs).2 ∧
    (crlf bs).drop (piece b bs).2 = crlf (bs.drop (piece b bs).2) := by
  rw [piece, piece]
  cases hranges : continuation? b with
  | none => simp
  | some ranges =>
    obtain ⟨hfit, htake, hdrop⟩ := crlf_fitting (follow_of_continuation? hranges) bs
    simp only [hfit]
    exact ⟨by split <;> simp_all, htake, hdrop⟩

theorem piece_lineFeed (bs : List UInt8) : piece 10 bs = (some '\n', 0) := piece_of_lt (by decide) bs

theorem piece_carriageReturn (bs : List UInt8) : piece 13 bs = (some '\r', 0) := piece_of_lt (by decide) bs

/-- A character of ASCII comes from its byte only. -/
theorem ne_of_piece {b : UInt8} {bs : List UInt8} {a : Char} (ha : a.toNat < 0x80) (hb : b.toNat ≠ a.toNat) :
    (piece b bs).1.getD '\uFFFD' ≠ a := by
  rintro rfl
  cases hc : (piece b bs).1 with
  | none =>
    rw [hc] at ha
    exact absurd ha (by decide)
  | some c =>
    rw [hc, Option.getD_some] at ha hb
    by_cases hlow : b < 0x80
    · exact hb (toNat_of_piece hlow hc).symm
    · have hle := le_of_piece hlow hc
      omega

/-- **Reading bytes and putting in carriage returns commute.** -/
theorem decode_crlf (bytes : List UInt8) : decode (crlf bytes) = Text.crlf (decode bytes) := by
  induction bytes using pieces.induct with
  | case1 => simp [decode, pieces, crlf]
  | case2 b bs c n hpiece ih =>
    obtain ⟨rfl, rfl⟩ : (piece b bs).1 = c ∧ (piece b bs).2 = n := by simp [hpiece]
    by_cases hb : b = 10
    · subst hb
      simp only [piece_lineFeed, List.drop_zero] at ih
      simp [crlf, decode_cons, piece_lineFeed, piece_carriageReturn, ← ih]
    · have hchar : (piece b bs).1.getD '\uFFFD' ≠ '\n' :=
        ne_of_piece (by decide) fun heq => hb (UInt8.toNat_inj.mp heq)
      obtain ⟨hsame, -, hdrop⟩ := piece_crlf b bs
      rw [crlf_cons_of_ne hb, decode_cons, decode_cons, hsame, hdrop, ih, Text.crlf_cons_of_ne hchar]

/-- Without the byte of a carriage return there is none in the text. -/
theorem carriageReturn_notMem_decode {bytes : List UInt8} (h : 13 ∉ bytes) : '\r' ∉ decode bytes := by
  induction bytes using pieces.induct with
  | case1 => simp [decode, pieces]
  | case2 b bs c n hpiece ih =>
    obtain ⟨rfl, rfl⟩ : (piece b bs).1 = c ∧ (piece b bs).2 = n := by simp [hpiece]
    obtain ⟨hb, hbs⟩ : 13 ≠ b ∧ 13 ∉ bs := by simpa using h
    have hchar : (piece b bs).1.getD '\uFFFD' ≠ '\r' :=
      ne_of_piece (by decide) fun heq => hb (UInt8.toNat_inj.mp heq).symm
    rw [decode_cons, List.mem_cons, not_or]
    exact ⟨hchar.symm, ih fun hmem => hbs (List.mem_of_mem_drop hmem)⟩

/-- **The text of a file with unified line ends** does not tell how they were written. -/
theorem unifyLineEnds_decode_crlf {bytes : List UInt8} (h : 13 ∉ bytes) :
    unifyLineEnds (decode (crlf bytes)) = unifyLineEnds (decode bytes) := by
  have hdecoded := carriageReturn_notMem_decode h
  rw [decode_crlf, unifyLineEnds_crlf hdecoded, unifyLineEnds_of_notMem hdecoded]

/-- **The first invalid piece comes after the same bytes**, up to how their lines end. -/
theorem firstInvalid?_crlf (bytes : List UInt8) :
    firstInvalid? bytes = none ∧ firstInvalid? (crlf bytes) = none ∨
      ∃ n m, firstInvalid? bytes = some n ∧ firstInvalid? (crlf bytes) = some m ∧
        (crlf bytes).take m = crlf (bytes.take n) := by
  induction bytes using pieces.induct with
  | case1 => exact .inl ⟨firstInvalid?_nil, firstInvalid?_nil⟩
  | case2 b bs c n hpiece ih =>
    obtain ⟨rfl, rfl⟩ : (piece b bs).1 = c ∧ (piece b bs).2 = n := by simp [hpiece]
    by_cases hb : b = 10
    · subst hb
      have hcons : crlf (10 :: bs) = 13 :: 10 :: crlf bs := putBefore_cons_self bs
      simp only [hcons, firstInvalid?_cons, piece_lineFeed, piece_carriageReturn, List.drop_zero, Option.isSome_some,
        ↓reduceIte] at ih ⊢
      rcases ih with ⟨hnone, hnone'⟩ | ⟨n, m, hn, hm, htake⟩
      · exact .inl ⟨by simp [hnone], by simp [hnone']⟩
      · refine .inr ⟨n + 1, m + 2, by simp [hn], by simp [hm], ?_⟩
        simpa [crlf] using htake
    · obtain ⟨hsame, hlength, hdrop⟩ := piece_crlf b bs
      rw [crlf_cons_of_ne hb, firstInvalid?_cons, firstInvalid?_cons, hsame, hdrop]
      by_cases hvalid : (piece b bs).1.isSome
      · simp only [hvalid, ↓reduceIte]
        rcases ih with ⟨hnone, hnone'⟩ | ⟨n, m, hn, hm, htake⟩
        · exact .inl ⟨by simp [hnone], by simp [hnone']⟩
        · refine .inr ⟨n + ((piece b bs).2 + 1), m + ((piece b bs).2 + 1), by simp [hn], by simp [hm], ?_⟩
          have hfree : crlf (bs.take (piece b bs).2) = bs.take (piece b bs).2 :=
            putBefore_of_notMem fun hmem => absurd (le_of_mem_take_piece hmem) (by decide)
          rw [← Nat.add_assoc, ← Nat.add_assoc, List.take_succ_cons, List.take_succ_cons, Nat.add_comm m,
            Nat.add_comm n, List.take_add, List.take_add, hlength, hdrop, htake, crlf_cons_of_ne hb, crlf_append, hfree]
      · simp only [hvalid, Bool.false_eq_true, ↓reduceIte]
        exact .inr ⟨0, 0, rfl, rfl, rfl⟩

end Utf8

end Conformance.Text
