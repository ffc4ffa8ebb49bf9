import Mathlib.Data.List.Perm.Basic
import Conformance.Proofs.Text.Encoding
import Conformance.Proofs.Text.Position
import Conformance.Rule.Parser

/-!
# Rule files in bytes

A rule file that is the encoding of a text is read as that text. Any other one is read with replacements, and the first
of them is reported; its line is that in the text, and its column, which counts bytes, is that in the text or lies
behind it (`bytePosition_encode`).

Diagnostics are sorted by position, and those at one position keep the order in which they were found (`Sorts`).
-/

namespace Conformance

/-! ## Order -/

namespace Diagnostic

/-- The diagnostics by position, those at one position in the order in which they were found. -/
structure Sorts (found sorted : List Diagnostic) : Prop where
  perm : sorted.Perm found
  pairwise : sorted.Pairwise fun a b => a.position.atOrBefore b.position
  stable : ∀ p, sorted.filter (·.position = p) = found.filter (·.position = p)

theorem le_trans (a b c : Diagnostic) (hab : a.le b = true) (hbc : b.le c = true) : a.le c = true := by
  simp only [le, Text.Position.atOrBefore, Bool.or_eq_true, Bool.and_eq_true, decide_eq_true_eq, beq_iff_eq] at *
  omega

theorem le_total (a b : Diagnostic) : (a.le b || b.le a) = true := by
  simp only [le, Text.Position.atOrBefore, Bool.or_eq_true, Bool.and_eq_true, decide_eq_true_eq, beq_iff_eq]
  omega

theorem le_of_position_eq {a b : Diagnostic} (h : a.position = b.position) : a.le b = true := by
  simp [le, Text.Position.atOrBefore, h]

theorem sorts_byPosition (found : List Diagnostic) : Sorts found (ParsedRule.byPosition found) where
  perm := List.mergeSort_perm found le
  pairwise := List.pairwise_mergeSort le_trans le_total found
  stable p := by
    have hequal : (found.filter (·.position = p)).Pairwise fun a b => a.le b = true := by
      refine List.pairwise_of_forall_mem_list fun a ha b hb => le_of_position_eq ?_
      have hposition : ∀ d ∈ found.filter (·.position = p), d.position = p := fun d hd => by
        simpa using (List.mem_filter.mp hd).2
      rw [hposition a ha, hposition b hb]
    -- what stands at one position is a sublist of the sorted list, and there is no more of it
    have hsub := (List.sublist_mergeSort le_trans le_total hequal List.filter_sublist).filter (·.position = p)
    simp only [List.filter_filter, Bool.and_self] at hsub
    exact (hsub.eq_of_length ((List.mergeSort_perm found le).filter _).length_eq.symm).symm

/-- Sorting once more with others behind is sorting all of them. -/
theorem Sorts.append {found sorted others sorted' : List Diagnostic} (h : Sorts found sorted)
    (h' : Sorts (sorted ++ others) sorted') : Sorts (found ++ others) sorted' where
  perm := h'.perm.trans (h.perm.append_right others)
  pairwise := h'.pairwise
  stable p := by rw [h'.stable, List.filter_append, List.filter_append, h.stable]

end Diagnostic

/-! ## Positions -/

namespace ParsedRule

open Text (positionAt)
open Text.Utf8

/-- **Where the bytes of a text end** is the line in which the text ends. The column is that of the text or lies behind
it, and it is that of the text iff the bytes of the line are of ASCII. -/
theorem bytePosition_encode (cs : List Char) (rest : List UInt8) (ds : List Char) :
    let reported := bytePosition (encode cs ++ rest) (encode cs).length
    let read := positionAt (cs ++ ds) cs.length
    reported.line = read.line ∧ read.column ≤ reported.column ∧
      (reported.column = read.column ↔ ∀ b ∈ lastLine 10 (encode cs), b < 0x80) := by
  obtain ⟨hle, hiff⟩ := length_le_length_encode (lastLine '\n' cs)
  rw [← lastLine_encode] at hle hiff
  have hcolumn : ∀ {α : Type} [BEq α] (lf : α) (xs : List α),
      (xs.reverse.takeWhile (· != lf)).length = (lastLine lf xs).length := by simp [lastLine]
  simp only [Text.positionAt_append, Text.start_advance, bytePosition, List.take_left, count_encode, hcolumn]
  exact ⟨trivial, by omega, by rw [← hiff]; omega⟩

/-! ## Rule files -/

/-- The problems of a text in the order in which they are found: first those of its characters, then those of its
statements. -/
def found (text : List Char) : List Diagnostic :=
  Token.diagnosticsOfText text ++ (Statement.readings (Token.ofText text)).flatMap (·.problems)

theorem sorts_ofText (text : List Char) : Diagnostic.Sorts (found text) (ofText text).diagnostics :=
  Diagnostic.sorts_byPosition (found text)

theorem ofBytes_encode (text : List Char) : ofBytes (encode text) = ofText text := by
  rw [ofBytes, firstInvalid?_encode, decode_encode]

/-- The diagnostic reports the first replacement in the text that is read from bytes. It comes behind `before`. -/
structure ReportsReplacement (bytes : List UInt8) (before : List Char) (d : Diagnostic) : Prop where
  /-- The bytes of `before` are followed by some with which no character begins. -/
  bytes_eq : ∃ rest, bytes = encode before ++ rest ∧ ∀ c, ¬ String.utf8EncodeChar c <+: rest
  decode_eq : ∃ after, decode bytes = before ++ '\uFFFD' :: after
  message_eq : d.message = "invalid UTF-8 byte sequence replaced"
  line_eq : d.position.line = (positionAt (decode bytes) before.length).line
  column_le : (positionAt (decode bytes) before.length).column ≤ d.position.column
  /-- The bytes of the line before the replacement are of ASCII. -/
  column_eq_iff : d.position.column = (positionAt (decode bytes) before.length).column ↔
    ∀ b ∈ lastLine 10 (encode before), b < 0x80

/-- **A rule file is read as the text that it encodes**, and with replacements if it encodes none. Then the rule and the
diagnostics are those of the text that is read, and one more diagnostic reports the first replacement. In both cases
diagnostics are sorted by position, and those at one position keep the order in which they were found. -/
theorem ofBytes_decode (bytes : List UInt8) :
    (∀ text, bytes = encode text → ofBytes bytes = ofText text ∧
      Diagnostic.Sorts (found text) (ofBytes bytes).diagnostics) ∧
    ((∀ text, bytes ≠ encode text) → ∃ before d, ReportsReplacement bytes before d ∧
      (ofBytes bytes).rule = Rule.ofText (decode bytes) ∧
      (ofBytes bytes).diagnostics.Perm ((ofText (decode bytes)).diagnostics ++ [d]) ∧
      Diagnostic.Sorts (found (decode bytes) ++ [d]) (ofBytes bytes).diagnostics) := by
  refine ⟨?_, fun h => ?_⟩
  · rintro text rfl
    rw [ofBytes_encode]
    exact ⟨rfl, sorts_ofText text⟩
  · obtain ⟨before, rest, hbytes, hbroken, hfirst, after, hdecode⟩ := exists_of_forall_ne_encode h
    let d : Diagnostic := ⟨bytePosition bytes (encode before).length, .invalidBytes⟩
    have hread : ofBytes bytes =
        ⟨Rule.ofText (decode bytes), byPosition ((ofText (decode bytes)).diagnostics ++ [d])⟩ := by
      rw [ofBytes, hfirst]
      rfl
    have hsorts := Diagnostic.sorts_byPosition ((ofText (decode bytes)).diagnostics ++ [d])
    obtain ⟨hline, hcolumn, hiff⟩ := bytePosition_encode before rest ('\uFFFD' :: after)
    rw [← hbytes, ← hdecode] at hline hcolumn hiff
    rw [hread]
    exact ⟨before, d, ⟨⟨rest, hbytes, hbroken.2⟩, ⟨after, hdecode⟩, rfl, hline, hcolumn, hiff⟩, rfl, hsorts.perm,
      (sorts_ofText _).append hsorts⟩

/-- Bytes that encode no text: the first line holds a replacement character of its own, and the second breaks off behind
a character of two bytes. -/
def brokenBytes : List UInt8 := encode "# \uFFFD\n# é".toList ++ 0xFF :: encode "\ndeny io.network.*\n".toList

theorem ofBytes_decode_brokenBytes : (∀ text, brokenBytes ≠ encode text) ∧
    ∃ before d, ReportsReplacement brokenBytes before d ∧
      (ofBytes brokenBytes).rule = Rule.ofText (decode brokenBytes) ∧
      (ofBytes brokenBytes).diagnostics.Perm ((ofText (decode brokenBytes)).diagnostics ++ [d]) ∧
      Diagnostic.Sorts (found (decode brokenBytes) ++ [d]) (ofBytes brokenBytes).diagnostics := by
  have hbroken : IsBroken (0xFF :: encode "\ndeny io.network.*\n".toList) := isBroken_cons_iff.mpr rfl
  have hne : ∀ text, brokenBytes ≠ encode text := hbroken.append_ne_encode _
  exact ⟨hne, (ofBytes_decode brokenBytes).2 hne⟩

end ParsedRule

end Conformance
