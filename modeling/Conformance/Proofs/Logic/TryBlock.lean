import Conformance.Logic.Signature
import Conformance.Proofs.Pattern.Finding
import Mathlib.Data.List.TakeWhile

/-!
# Blocks that catch what they try

A block goes from `try` and its opening brace to the first closing brace with `catch` behind it (`IsTryBlock`). Where a
text goes on with such a block, that is what the signature matches (`matchAt?_of_isTryBlock`), however far the greedy
white space and the lazy run behind the brace could reach.

No match cuts an opening in two: a match ends with a letter that no opening has (`tryOpening_le_of_overlap`). So the scan,
which goes on behind each block, misses no opening that is caught somewhere: it lies in exactly one of the blocks, as the
first opening or nested in it (`scan_tryCatch`).
-/

namespace Conformance.Logic

open Pattern Text

/-- `try`, white space and the brace that opens the block. -/
def IsTryOpening (t : List Char) : Prop :=
  ∃ gap, (∀ c ∈ gap, isBlank c = true) ∧ t = "try".toList ++ (gap ++ ['\x7b'])

/-- The brace that closes the block, white space and `catch`. -/
def IsCatchClosing (t : List Char) : Prop :=
  ∃ gap, (∀ c ∈ gap, isBlank c = true) ∧ t = ['\x7d'] ++ (gap ++ "catch".toList)

/-- A block and the text behind it: it goes to the first closing. -/
structure IsTryBlock (opening body closing after : List Char) : Prop where
  opens : IsTryOpening opening
  closes : IsFirst IsCatchClosing body closing after

/-- The patterns for a closing. -/
def closingParts : List Pattern := [char (· == '\x7d'), blanks 0, text "catch"]

theorem tryCatch_pattern : Signature.tryCatch.pattern =
    inOrder (text "try" :: blanks 0 :: char (· == '\x7b') :: blanks 0 :: lazily 0 (fun _ => true) :: closingParts) := rfl

theorem fits_closingParts_iff {t : List Char} : (inOrder closingParts).Fits t ↔ IsCatchClosing t := by
  simp only [closingParts, fits_inOrder_cons, fits_inOrder_nil, fits_text, fits_blanks, fits_char_beq]
  constructor
  · rintro ⟨_, _, rfl, rfl, gap, _, rfl, ⟨-, hgap⟩, _, _, rfl, rfl, rfl⟩
    exact ⟨gap, hgap, by rw [List.append_nil]⟩
  · rintro ⟨gap, hgap, rfl⟩
    exact ⟨_, _, rfl, rfl, gap, _, rfl, ⟨Nat.zero_le _, hgap⟩, _, [], (List.append_nil _).symm, rfl, rfl⟩

/-- What the signature matches is an opening and, somewhere behind it, a closing. -/
theorem exists_closing_of_fits {t : List Char} (h : Signature.tryCatch.pattern.Fits t) :
    ∃ opening body closing, t = opening ++ (body ++ closing) ∧ IsTryOpening opening ∧ IsCatchClosing closing := by
  rw [tryCatch_pattern] at h
  simp only [fits_inOrder_cons, fits_text, fits_blanks, fits_char_beq, fits_closingParts_iff] at h
  obtain ⟨keyword, _, rfl, hkeyword, gap, _, rfl, ⟨-, hgap⟩, _, _, rfl, rfl, blank, _, rfl, -, body, closing, rfl, -,
    hclosing⟩ := h
  refine ⟨keyword ++ (gap ++ ['\x7b']), blank ++ body, closing, ?_, ⟨gap, hgap, by rw [hkeyword]⟩, hclosing⟩
  simp only [List.append_assoc]

section Find

variable {α : Type} {k : Cursor → Option α} {c : Cursor} {xs : List Char} {ps : List Pattern}

theorem find_closing {closing : List Char} (hclosing : IsCatchClosing closing) (h : c.rest = closing ++ xs) :
    (inOrder closingParts).find k c = k (c.past closing) := by
  obtain ⟨gap, hgap, rfl⟩ := hclosing
  have hbrace : c.rest = '\x7d' :: (gap ++ ("catch".toList ++ xs)) := by
    rw [h]
    simp only [List.append_assoc, List.cons_append, List.nil_append]
  have hgap' : (c.past ['\x7d']).rest = gap ++ ("catch".toList ++ xs) := Cursor.rest_past (t := ['\x7d']) hbrace
  have hcatch : ∀ x ∈ ("catch".toList ++ xs).head?, isBlank x = false := by
    intro x hx
    obtain rfl : 'c' = x := Option.some.inj hx
    decide
  have hopens : ∀ x, isBlank x = true → ¬ (inOrder [text "catch"]).OpensWith x := by
    intro x hx
    rw [opensWith_inOrder_cons, opensWith_text]
    rintro (hc | ⟨hnull, -⟩)
    · obtain rfl : 'c' = x := Option.some.inj hc
      exact absurd hx (by decide)
    · exact absurd hnull (by decide)
  unfold closingParts
  rw [find_inOrder_cons, find_char_beq hbrace, blanks,
    find_greedily_inOrder hgap' hgap hcatch (Nat.zero_le _) (by decide) hopens, find_inOrder_cons,
    find_text (Cursor.rest_past hgap'), Cursor.past_append, Cursor.past_append]
  rfl

theorem find_tryOpening {opening : List Char} (hopening : IsTryOpening opening) (h : c.rest = opening ++ xs) :
    (inOrder (text "try" :: blanks 0 :: char (· == '\x7b') :: ps)).find k c = (inOrder ps).find k (c.past opening) := by
  obtain ⟨gap, hgap, rfl⟩ := hopening
  simp only [List.append_assoc] at h
  rw [find_inOrder_cons, find_text h, find_behind_blanks (Cursor.rest_past h) hgap (by decide), ← Cursor.past_append]

/-- Behind the brace, the match ends with the first closing: the white space before it holds no closing. -/
theorem find_tryBody {a : α} {body closing after : List Char} (hfirst : IsFirst IsCatchClosing body closing after)
    (h : c.rest = body ++ (closing ++ after)) (hk : k (c.past (body ++ closing)) = some a) :
    (inOrder (blanks 0 :: lazily 0 (fun _ => true) :: closingParts)).find k c = some a := by
  have hsplit : body.takeWhile isBlank ++ body.dropWhile isBlank = body := List.takeWhile_append_dropWhile
  have hblanks : c.rest = body.takeWhile isBlank ++ (body.dropWhile isBlank ++ (closing ++ after)) := by
    rw [h, ← List.append_assoc (body.takeWhile isBlank), hsplit]
  have hgap : ∀ x ∈ body.takeWhile isBlank, isBlank x = true := fun x hx => List.mem_takeWhile_imp hx
  have hbrace : ∀ x ∈ (closing ++ after).head?, isBlank x = false := by
    obtain ⟨gap, -, rfl⟩ := hfirst.holds
    intro x hx
    obtain rfl : '\x7d' = x := Option.some.inj hx
    decide
  have hbehind : IsFirst (inOrder closingParts).Fits (body.dropWhile isBlank) closing after := by
    rw [funext fun t => propext (fits_closingParts_iff (t := t))]
    rw [← hsplit] at hfirst
    exact hfirst.of_append
  have hrun := Cursor.rest_past hblanks
  rw [find_inOrder_cons]
  refine find_greedily hblanks hgap (head?_dropWhile_append body hbrace) (Nat.zero_le _) ?_
  refine find_lazily_any hrun hbehind ?_
  rw [find_closing hfirst.holds (Cursor.rest_past hrun), ← Cursor.past_append, ← Cursor.past_append,
    ← List.append_assoc, hsplit]
  exact hk

end Find

variable {content opening body closing after : List Char} {c : Cursor}

/-- **A block is matched as a whole**, and no further. -/
theorem matchAt?_of_isTryBlock (hblock : IsTryBlock opening body closing after)
    (h : c.rest = opening ++ (body ++ (closing ++ after))) :
    Signature.tryCatch.pattern.matchAt? c = some ⟨⟨c.offset, opening ++ (body ++ closing)⟩, c.marked⟩ := by
  have htext : c.rest = opening ++ (body ++ closing) ++ after := by
    rw [h]
    simp only [List.append_assoc]
  have hwhole : c.upTo (c.past (opening ++ (body ++ closing))) = ⟨c.offset, opening ++ (body ++ closing)⟩ :=
    (Cursor.reaches_past htext).upTo_eq
  rw [matchAt?, tryCatch_pattern, find_tryOpening hblock.opens h]
  refine find_tryBody hblock.closes (Cursor.rest_past h) ?_
  rw [← Cursor.past_append, hwhole]
  rfl

/-- Where the signature matches, a block stands. -/
theorem isTryBlock_of_matchAt? {m : Match} (h : Signature.tryCatch.pattern.matchAt? c = some m) :
    ∃ opening body closing after, c.rest = opening ++ (body ++ (closing ++ after)) ∧
      m.whole = ⟨c.offset, opening ++ (body ++ closing)⟩ ∧ IsTryBlock opening body closing after := by
  obtain ⟨t, rest, hrest, -, ht⟩ := exists_fitting_of_matchAt? h
  obtain ⟨opening, middle, closing, rfl, hopening, hclosing⟩ := exists_closing_of_fits ht
  obtain ⟨body, first, after, hmiddle, hfirst⟩ := exists_isFirst hclosing middle rest
  have hblock : c.rest = opening ++ (body ++ (first ++ after)) := by
    rw [hrest, ← hmiddle]
    simp only [List.append_assoc]
  have hm := h.symm.trans (matchAt?_of_isTryBlock ⟨hopening, hfirst⟩ hblock)
  exact ⟨opening, body, first, after, hblock, congrArg Match.whole (Option.some.inj hm), hopening, hfirst⟩

theorem notMem_tryOpening (h : IsTryOpening opening) : 'h' ∉ opening := by
  obtain ⟨gap, hgap, rfl⟩ := h
  have hgap' : 'h' ∉ gap := fun hmem => absurd (hgap 'h' hmem) (by decide)
  simpa using hgap'

/-- An opening that begins in front of the end of a closing ends there too: the last letter of the closing is none of an
opening. -/
theorem tryOpening_le_of_overlap {text rest : List Char} {n : Nat} (hopening : IsTryOpening opening)
    (hclosing : IsCatchClosing closing) (hn : n < (text ++ closing).length)
    (h : (text ++ closing ++ rest).drop n = opening ++ after) : n + opening.length ≤ (text ++ closing).length := by
  obtain ⟨gap, -, rfl⟩ := hclosing
  have hlast : text ++ (['\x7d'] ++ (gap ++ "catch".toList)) = text ++ ('\x7d' :: gap ++ "catc".toList) ++ ['h'] := by
    simp only [List.append_assoc]
    rfl
  rw [hlast] at h hn ⊢
  generalize text ++ ('\x7d' :: gap ++ "catc".toList) = start at h hn ⊢
  simp only [List.length_append, List.length_singleton] at hn ⊢
  rw [List.append_assoc, List.drop_append_of_le_length (by omega)] at h
  by_contra hlonger
  have hmem : 'h' ∈ opening := by
    rw [← List.append_assoc] at h
    have hprefix : start.drop n ++ ['h'] <+: opening :=
      List.prefix_of_prefix_length_le ⟨rest, h⟩ (List.prefix_append opening after) (by simp; omega)
    exact hprefix.subset (List.mem_append_right _ List.mem_cons_self)
  exact notMem_tryOpening hopening hmem

/-! ## The scan -/

theorem isTryBlock_of_mem_scan {m : Match} (hm : m ∈ Signature.tryCatch.pattern.scan content) :
    ∃ opening body closing after, content.drop m.whole.start = opening ++ (body ++ (closing ++ after)) ∧
      m.whole.text = opening ++ (body ++ closing) ∧ IsTryBlock opening body closing after := by
  obtain ⟨opening, body, closing, after, hrest, hwhole, hblock⟩ := isTryBlock_of_matchAt? (matchAt?_of_mem_scan hm)
  exact ⟨opening, body, closing, after, hrest, congrArg Span.text hwhole, hblock⟩

theorem length_tryOpening_pos (h : IsTryOpening opening) : 0 < opening.length := by
  obtain ⟨gap, -, rfl⟩ := h
  exact Nat.succ_pos _

/-- Where an opening stands that is caught somewhere, one block of the scan is around its first character. -/
theorem existsUnique_around_tryOpening {offset : Nat} {middle : List Char}
    (hrest : content.drop offset = opening ++ (middle ++ (closing ++ after))) (hopening : IsTryOpening opening)
    (hclosing : IsCatchClosing closing) :
    ∃! m, m ∈ Signature.tryCatch.pattern.scan content ∧ m.whole.start ≤ offset ∧ offset < m.stop := by
  have hne : ∀ c m, Signature.tryCatch.pattern.matchAt? c = some m → m.whole.text ≠ [] := by
    intro c m hm
    obtain ⟨opening, body, closing, after, -, hwhole, hblock⟩ := isTryBlock_of_matchAt? hm
    have hpos := length_tryOpening_pos hblock.opens
    rw [hwhole, ← List.length_pos_iff, List.length_append]
    omega
  have hoffset : offset ≤ content.length := by
    have hpos := length_tryOpening_pos hopening
    have hdrop := congrArg List.length hrest
    rw [List.length_drop, List.length_append] at hdrop
    omega
  obtain ⟨body, first, behind, hmiddle, hfirst⟩ := exists_isFirst hclosing middle after
  have hmatch : Signature.tryCatch.pattern.matchAt? (Cursor.ofOffset content offset) = some _ :=
    matchAt?_of_isTryBlock ⟨hopening, hfirst⟩ (hrest.trans (congrArg (opening ++ ·) hmiddle))
  exact existsUnique_mem_scan hne hoffset (Option.isSome_iff_exists.mpr ⟨_, hmatch⟩)

/-- An opening that begins in a block of the scan ends in it. -/
theorem tryOpening_le_stop {m : Match} (hm : m ∈ Signature.tryCatch.pattern.scan content) {offset : Nat}
    (hstart : m.whole.start ≤ offset) (hstop : offset < m.stop) (hopening : IsTryOpening opening)
    (hrest : content.drop offset = opening ++ after) : offset + opening.length ≤ m.stop := by
  obtain ⟨opens, body, closing, rest, hblock, htext, -, hclosing, -⟩ := isTryBlock_of_mem_scan hm
  have hcover : content.drop m.whole.start = opens ++ body ++ closing ++ rest := by
    rw [hblock]
    simp only [List.append_assoc]
  have hoverlap : (opens ++ body ++ closing ++ rest).drop (offset - m.whole.start) = opening ++ after := by
    rw [← hrest, ← hcover, List.drop_drop, Nat.add_sub_cancel' hstart]
  rw [Match.stop, htext, ← List.append_assoc] at hstop ⊢
  have hle := tryOpening_le_of_overlap hopening hclosing (by omega) hoverlap
  omega

/-- **The scan for blocks.** The blocks that are found do not overlap. Each goes from an opening to the first closing
behind it. And each opening with a closing somewhere behind it lies in exactly one of them. -/
theorem scan_tryCatch (content : List Char) :
    (Signature.tryCatch.pattern.scan content).Pairwise (fun m n => m.stop ≤ n.whole.start) ∧
    (∀ m ∈ Signature.tryCatch.pattern.scan content, ∃ opening body closing after,
      content.drop m.whole.start = opening ++ (body ++ (closing ++ after)) ∧
        m.whole.text = opening ++ (body ++ closing) ∧ IsTryBlock opening body closing after) ∧
    ∀ offset opening middle closing after, content.drop offset = opening ++ (middle ++ (closing ++ after)) →
      IsTryOpening opening → IsCatchClosing closing →
        ∃! m, m ∈ Signature.tryCatch.pattern.scan content ∧
          m.whole.start ≤ offset ∧ offset + opening.length ≤ m.stop := by
  refine ⟨pairwise_scan _ content, fun m => isTryBlock_of_mem_scan, ?_⟩
  intro offset opening middle closing after hrest hopening hclosing
  obtain ⟨m, ⟨hm, hstart, hstop⟩, hunique⟩ := existsUnique_around_tryOpening hrest hopening hclosing
  refine ⟨m, ⟨hm, hstart, tryOpening_le_stop hm hstart hstop hopening hrest⟩, ?_⟩
  rintro n ⟨hn, hstart', hstop'⟩
  have hpos := length_tryOpening_pos hopening
  exact hunique n ⟨hn, hstart', by omega⟩

/-- A nested block that only the inner `catch` closes: the inner opening lies in the one block that is found. -/
theorem scan_tryCatch_nested : ∃! m, m ∈ Signature.tryCatch.pattern.scan "try \x7b try\x7b f() \x7d catch".toList ∧
    m.whole.start ≤ 6 ∧ 6 + "try\x7b".toList.length ≤ m.stop :=
  (scan_tryCatch "try \x7b try\x7b f() \x7d catch".toList).2.2 6 "try\x7b".toList " f() ".toList "\x7d catch".toList []
    (by decide) ⟨[], List.forall_mem_nil _, by decide⟩ ⟨[' '], List.forall_mem_singleton.mpr (by decide), by decide⟩

end Conformance.Logic
