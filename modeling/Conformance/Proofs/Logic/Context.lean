import Conformance.Logic.Finding
import Conformance.Proofs.Pattern.Recognition
import Conformance.Proofs.Text.Word

/-!
# The context of a match

A piece of code is about the user interface if a part of it is (`isInterfaceCode_of_infix`): the names that tell so are
found wherever they stand. And what a match holds on one line, without white space, its context holds too: the window
around the match is cut at the ends of the text, its line feeds become blanks and its ends are trimmed, but nothing of
that touches such a word (`infix_context`).

Hence a signature that only warns need not excuse a match by a name that the match marks: where the name is one of
user-interface code, so is the context, and the match passes anyway (`excuse_longFunction_redundant`).
-/

namespace Conformance

open Pattern

/-! ## Words in trimmed texts -/

namespace Text

/-- Dropping characters in front leaves a word that has none of them. -/
theorem infix_dropWhile {p : Char → Bool} {w text : List Char} (hw : ∀ c ∈ w, p c = false) (h : w <:+: text) :
    w <:+: text.dropWhile p := by
  obtain ⟨u, v, rfl⟩ := h
  rw [List.append_assoc]
  induction u with
  | nil =>
    cases w with
    | nil => exact List.nil_infix
    | cons x w =>
      have hx : ¬ p x = true := by simp [hw x List.mem_cons_self]
      rw [List.nil_append, List.cons_append, List.dropWhile_cons_of_neg hx]
      exact (List.prefix_append (x :: w) v).isInfix
  | cons y u ih =>
    by_cases hy : p y = true
    · rw [List.cons_append, List.dropWhile_cons_of_pos hy]
      exact ih
    · rw [List.cons_append, List.dropWhile_cons_of_neg hy]
      exact List.infix_append' (y :: u) w v

theorem infix_trim {w text : List Char} (hw : ∀ c ∈ w, isBlank c = false) (h : w <:+: text) : w <:+: trim text := by
  have hfront : w.reverse <:+: (text.dropWhile isBlank).reverse := List.reverse_infix.mpr (infix_dropWhile hw h)
  have hends := infix_dropWhile (fun c hc => hw c (List.mem_reverse.mp hc)) hfront
  rw [trim, ← List.reverse_infix, List.reverse_reverse]
  exact hends

end Text

namespace Logic

/-! ## Parts of interface code -/

theorem plain_of_mem_interfacePatterns : ∀ p ∈ interfacePatterns, p.Plain := by
  simp [interfacePatterns, validationNames, formattingNames, stateNames, shorteningNames, stylingNames, handlerNames,
    lengthTest, compound, pair]

/-- Code is about the user interface iff a part of it fits one of the patterns for that. -/
theorem isInterfaceCode_iff {snippet : List Char} :
    isInterfaceCode snippet = true ↔ snippet ≠ [] ∧ ∃ p ∈ interfacePatterns, ∃ t, p.Fits t ∧ t <:+: snippet := by
  rw [isInterfaceCode, Bool.and_eq_true, Bool.not_eq_true', List.isEmpty_eq_false_iff, List.any_eq_true]
  constructor
  · rintro ⟨hne, p, hp, hoccurs⟩
    exact ⟨hne, p, hp, (occursIn_iff (plain_of_mem_interfacePatterns p hp)).mp hoccurs⟩
  · rintro ⟨hne, p, hp, hfits⟩
    exact ⟨hne, p, hp, (occursIn_iff (plain_of_mem_interfacePatterns p hp)).mpr hfits⟩

/-- **Code with interface code in it is interface code.** -/
theorem isInterfaceCode_of_infix {s t : List Char} (h : s <:+: t) (hs : isInterfaceCode s = true) :
    isInterfaceCode t = true := by
  obtain ⟨hne, p, hp, u, hu, hinfix⟩ := isInterfaceCode_iff.mp hs
  refine isInterfaceCode_iff.mpr ⟨?_, p, hp, u, hu, hinfix.trans h⟩
  rintro rfl
  exact hne (List.infix_nil.mp h)

/-! ## Words of a match -/

section Match

variable {p : Pattern} {content : List Char} {m : Match}

/-- The window around a match goes around all of it. -/
theorem infix_window (h : m ∈ p.scan content) (radius : Nat) :
    m.whole.text <:+: (content.drop (m.whole.start - radius)).take (m.stop + radius - (m.whole.start - radius)) := by
  obtain ⟨before, after, rfl, hstart, -⟩ := exists_around_of_mem_scan h
  have hfront : m.whole.start - radius ≤ before.length := by omega
  have hlength : (before.drop (m.whole.start - radius) ++ m.whole.text).length ≤
      m.stop + radius - (m.whole.start - radius) := by
    rw [List.length_append, List.length_drop, Match.stop]
    omega
  rw [List.drop_append_of_le_length hfront, ← List.append_assoc, List.take_append, List.take_of_length_le hlength,
    List.append_assoc]
  exact List.infix_append' _ _ _

/-- **The context holds every word of the match.** -/
theorem infix_context (h : m ∈ p.scan content) {w : List Char} (hw : w <:+: m.whole.text)
    (hblank : ∀ c ∈ w, Text.isBlank c = false) : w <:+: context content m := by
  have hsame : w.map (fun c => if c = '\n' then ' ' else c) = w := by
    conv => rhs; rw [← List.map_id w]
    refine List.map_congr_left fun c hc => ?_
    have hne : c ≠ '\n' := by
      rintro rfl
      exact absurd (hblank '\n' hc) (by decide)
    exact if_neg hne
  have hwindow := (hw.trans (infix_window h contextRadius)).map fun c => if c = '\n' then ' ' else c
  rw [hsame] at hwindow
  exact Text.infix_trim hblank hwindow

/-- A name that the match marks is interface code only if the context is. -/
theorem isInterfaceCode_context (hp : p.MarksOnly (Text.isWord · = true)) (h : m ∈ p.scan content)
    (hname : isInterfaceCode m.markedText = true) : isInterfaceCode (context content m) = true := by
  have hblank : ∀ c ∈ m.markedText, Text.isBlank c = false := fun c hc =>
    Text.isBlank_of_isWord (markedText_of_mem_scan hp h c hc)
  exact isInterfaceCode_of_infix (infix_context h (markedText_infix_of_mem_scan h) hblank) hname

end Match

/-! ## Signatures without their excuse -/

/-- The signature without its excuse, if it has the name. -/
def Signature.strictFor (name : String) (s : Signature) : Signature :=
  if s.name = name then { s with excuse? := none } else s

/-- The same match, reported by the signature without its excuse. -/
def Finding.strictFor (name : String) (f : Finding) : Finding := { f with signature := f.signature.strictFor name }

/-- What is said of the match does not change. -/
theorem Finding.message_strictFor (name : String) (f : Finding) : (f.strictFor name).message = f.message := by
  unfold strictFor Signature.strictFor
  split <;> rfl

namespace Signature

variable {s : Signature}

theorem strictFor_of_eq : s.strictFor s.name = { s with excuse? := none } := if_pos rfl

theorem strictFor_of_ne {name : String} (h : s.name ≠ name) : s.strictFor name = s := if_neg h

theorem findings_strictFor_of_ne {name : String} (h : s.name ≠ name) (content : List Char) :
    (s.strictFor name).findings content = (s.findings content).map (Finding.strictFor name) := by
  unfold findings
  rw [strictFor_of_ne h, List.map_map]
  refine List.map_congr_left fun m _ => ?_
  simp only [Function.comp_apply, Finding.strictFor, strictFor_of_ne h]

/-- **The excuse by a marked name changes nothing** about a signature that only warns. -/
theorem findings_strictFor (hwarning : s.severity = .warning) (hexcuse : s.excuse? = some isInterfaceFunction)
    (hmarks : s.pattern.MarksOnly (Text.isWord · = true)) (content : List Char) :
    (s.strictFor s.name).findings content = (s.findings content).map (Finding.strictFor s.name) := by
  have hpasses : ∀ m ∈ s.pattern.scan content,
      (s.strictFor s.name).passes m (context content m) = s.passes m (context content m) := by
    intro m hm
    rw [strictFor_of_eq, passes, passes, hexcuse, hwarning]
    have hredundant := isInterfaceCode_context hmarks hm
    simp only [Option.map_none, Option.getD_none, Option.map_some, Option.getD_some, Bool.false_or, decide_true,
      Bool.true_and, isInterfaceFunction]
    cases hname : isInterfaceCode m.markedText with
    | false => rfl
    | true => exact hredundant hname
  have hpattern : (s.strictFor s.name).pattern = s.pattern := by rw [strictFor_of_eq]
  unfold findings
  rw [List.map_map, hpattern, List.filter_congr fun m hm => by rw [hpasses m hm]]
  rfl

end Signature

theorem findings_map_strictFor {name : String} {signatures : List Signature} {content : List Char}
    (h : ∀ s ∈ signatures, (s.strictFor name).findings content = (s.findings content).map (Finding.strictFor name)) :
    findings (signatures.map (Signature.strictFor name)) content =
      (findings signatures content).map (Finding.strictFor name) := by
  unfold findings
  rw [List.flatMap_map, List.map_flatMap]
  exact List.flatMap_congr h

theorem longFunction_marksOnly : Signature.longFunction.pattern.MarksOnly (Text.isWord · = true) := by
  simp [Signature.longFunction, MarksOnly]

/-- **The excuse of long functions is redundant.** Interface code stays interface code with any code around it, so where
the name of a long function is interface code its context is; hence the catalogue without the excuse finds the same, in
every text. -/
theorem excuse_longFunction_redundant :
    (∀ s t, s <:+: t → isInterfaceCode s = true → isInterfaceCode t = true) ∧
      (∀ content, ∀ m ∈ Signature.longFunction.pattern.scan content,
        isInterfaceCode m.markedText = true → isInterfaceCode (context content m) = true) ∧
      ∀ content, findings (Signature.catalogue.map (Signature.strictFor "long-function")) content =
        (findings Signature.catalogue content).map (Finding.strictFor "long-function") := by
  refine ⟨fun _ _ => isInterfaceCode_of_infix, fun _ _ => isInterfaceCode_context longFunction_marksOnly, ?_⟩
  intro content
  apply findings_map_strictFor
  intro s hs
  by_cases hname : s.name = "long-function"
  · have hfilter : Signature.catalogue.filter (·.name = "long-function") = [.longFunction] := rfl
    have hmem : s ∈ Signature.catalogue.filter (·.name = "long-function") :=
      List.mem_filter.mpr ⟨hs, decide_eq_true hname⟩
    rw [hfilter] at hmem
    obtain rfl := List.mem_singleton.mp hmem
    exact Signature.findings_strictFor rfl rfl longFunction_marksOnly content
  · exact Signature.findings_strictFor_of_ne hname content

/-- A long function with a name of interface code, at the beginning of a text and behind white space. -/
def fieldCheck : List Char :=
  "\n function validateEmailField(value) \x7b\n  const parts = value.split('@')\n  setError(parts.length != 2)\n\x7d".toList

/-- The match of the function. -/
def fieldCheckMatch : Match := ⟨⟨2, (fieldCheck.drop 2).dropLast⟩, some ⟨11, "validateEmailField".toList⟩⟩

/-- The context of the match is trimmed, and holds the name still. -/
theorem excuse_longFunction_redundant_fieldCheck :
    isInterfaceCode "validateEmailField".toList = true ∧
      isInterfaceCode "function validateEmailField(value)".toList = true ∧
      fieldCheckMatch ∈ Signature.longFunction.pattern.scan fieldCheck ∧
      isInterfaceCode (context fieldCheck fieldCheckMatch) = true ∧
      findings (Signature.catalogue.map (Signature.strictFor "long-function")) fieldCheck =
        (findings Signature.catalogue fieldCheck).map (Finding.strictFor "long-function") := by
  have hname : isInterfaceCode "validateEmailField".toList = true := by decide +kernel
  have hinfix : "validateEmailField".toList <:+: "function validateEmailField(value)".toList :=
    ⟨"function ".toList, "(value)".toList, rfl⟩
  have hmem : fieldCheckMatch ∈ Signature.longFunction.pattern.scan fieldCheck := by decide +kernel
  exact ⟨hname, excuse_longFunction_redundant.1 _ _ hinfix hname, hmem,
    excuse_longFunction_redundant.2.1 fieldCheck fieldCheckMatch hmem hname,
    excuse_longFunction_redundant.2.2 fieldCheck⟩

end Logic

end Conformance
