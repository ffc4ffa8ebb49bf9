import Conformance.Proofs.Check.Opening
import Conformance.Proofs.Export.Heading

/-!
# Warnings about exports of utility modules

The pattern for utilities is narrower than the one for declarations: it matches at plain headings only
(`exists_exported_of_mem_utility`), and at each of them, wherever it stands in a line (`Exported.isSome_matchAt?`). So
there is a warning about an exported name iff its heading is plain, unless the scan has passed over the heading. It has
if the `export` of the heading is the name of another utility (`Exported.span_mem_warned_iff`).

`Check.unusedExports_eq` tells which of the exports that are found there are warnings about. These are not all of them
(`Check.not_forall_unusedWarning_mem`).
-/

namespace Conformance

open Pattern Text

namespace Export

/-- The names that declarations export, where they stand. -/
def named (content : List Char) : List Span := (declaration.scan content).filterMap (·.marked)

/-- The names of utilities, where they stand. -/
def warned (content : List Char) : List Span := (utility.scan content).filterMap (·.marked)

namespace Exported

variable {content : List Char} (e : Exported content)

/-- The heading begins in a line that has only indentation in front of it. -/
def StartsLine : Prop :=
  ∃ text indent, e.before = text ++ indent ∧ (Cursor.lastOf none text).all (· == '\n') = true ∧
    ∀ x ∈ indent, isIndent x = true

/-- The match of a utility, from `export` on. -/
def utilityMatch : Match := ⟨⟨e.before.length, e.heading.text ++ e.name⟩, some e.span⟩

theorem stop_utilityMatch : e.utilityMatch.stop = e.span.start + e.name.length := by
  rw [Match.stop, utilityMatch, List.length_append, ← Nat.add_assoc]
  rfl

end Exported

/-! ## Matches -/

/-- At the start of a line and behind an indentation, no word goes on. -/
theorem stops_of_indent {last : Option Char} {indent : List Char} (hlast : last.all (· == '\n') = true)
    (hindent : ∀ x ∈ indent, isIndent x = true) : (Cursor.lastOf last indent).any isWord = false := by
  by_cases hnil : indent = []
  · subst hnil
    cases last with
    | none => rfl
    | some x =>
      obtain rfl : x = '\n' := by simpa using hlast
      decide
  · obtain ⟨x, hx, hlast⟩ := Cursor.exists_mem_lastOf hnil last
    have hindent := hindent x hx
    rw [isIndent, Bool.or_eq_true, beq_iff_eq, beq_iff_eq] at hindent
    rw [hlast]
    rcases hindent with rfl | rfl <;> decide

/-- In front of a heading there is an edge, unless a word goes on there. -/
theorem Heading.atWordEdge_eq (h : Heading) {c : Cursor} {xs : List Char} (hrest : c.rest = h.text ++ xs) :
    atWordEdge c = !c.last.any isWord :=
  atWordEdge_of_isWord (hrest.trans (congrArg (· ++ xs) h.text_eq_cons)) (by decide)

variable {content : List Char}

/-- **A match of a declaration** is behind an indentation. -/
theorem exists_exported_of_mem_declaration {m : Match} (h : m ∈ declaration.scan content) :
    ∃ e : Exported content, e.StartsLine ∧ m.marked = some e.span := by
  obtain ⟨c, u, -, hlast, hm, rfl, hoffset⟩ := foundIn_of_mem_scanFrom h
  have hstart : c.last.all (· == '\n') = true := (exists_indent_of_matchAt? hm).1
  obtain ⟨t, name, after, ht, hrest, hne, hname, hafter, rfl⟩ :=
    exists_name_of_matchAt? [lineStart, greedily 0 isIndent, text "export", blanks 1, optionalWord "default",
      optionalWord "async", oneOf (keywords.map text), greedily 1 isGap] hm
  obtain ⟨_, _, rfl, rfl, indent, _, rfl, hindent, ht⟩ := ht
  obtain ⟨heading, rfl⟩ := exists_heading_of_fits ht
  rw [fits_greedily] at hindent
  rw [hlast] at hstart
  refine ⟨⟨u ++ indent, heading, name, after, ?_, ?_, hne, hname, hafter⟩, ⟨u, indent, rfl, hstart, hindent.2⟩, ?_⟩
  · rw [hrest]
    simp only [List.append_assoc, List.nil_append]
  · rw [Cursor.lastOf_append]
    exact stops_of_indent hstart hindent.2
  · simp only [Exported.span, hoffset, List.length_append, List.length_nil, Nat.zero_add, Nat.add_assoc]

/-- **A match of a utility** is a plain heading and a name. -/
theorem exists_exported_of_mem_utility {m : Match} (h : m ∈ utility.scan content) :
    ∃ e : Exported content, e.heading.IsPlain ∧ m = e.utilityMatch := by
  obtain ⟨c, u, -, hlast, hm, rfl, hoffset⟩ := foundIn_of_mem_scanFrom h
  have hedge : atWordEdge c = true := by
    by_contra hedge
    rw [utility, matchAt?, find_inOrder_cons, find, if_neg hedge] at hm
    cases hm
  obtain ⟨t, name, after, ht, hrest, hne, hname, hafter, rfl⟩ :=
    exists_name_of_matchAt? [wordEdge, text "export", blanks 1, optionalWord "async",
      oneOf (["const", "function", "class"].map text), blanks 1] hm
  obtain ⟨_, _, rfl, rfl, ht⟩ := ht
  obtain ⟨heading, hplain, rfl⟩ := fits_plain_iff.mp ht
  refine ⟨⟨u, heading, name, after, ?_, ?_, hne, hname, hafter⟩, hplain, ?_⟩
  · rw [hrest]
    rfl
  · rw [heading.atWordEdge_eq hrest, hlast] at hedge
    simpa using hedge
  · rw [Exported.utilityMatch, Exported.span, hoffset]
    simp only [List.nil_append, Nat.zero_add]

namespace Exported

variable (e : Exported content)

theorem ofOffset_eq : Cursor.ofOffset content e.before.length =
    ⟨Cursor.lastOf none e.before, e.heading.text ++ (e.name ++ e.after), e.before.length, none⟩ := by
  have htake : content.take e.before.length = e.before :=
    (congrArg (List.take _) e.content_eq).trans List.take_left
  have hdrop : content.drop e.before.length = e.heading.text ++ (e.name ++ e.after) :=
    (congrArg (List.drop _) e.content_eq).trans List.drop_left
  rw [Cursor.ofOffset, htake, hdrop]

/-- A utility matches at a plain heading. -/
theorem isSome_matchAt? (hplain : e.heading.IsPlain) :
    (utility.matchAt? (Cursor.ofOffset content e.before.length)).isSome = true := by
  have hplace := e.ofOffset_eq
  generalize Cursor.ofOffset content e.before.length = c at hplace ⊢
  have hrest : c.rest = e.heading.text ++ (e.name ++ e.after) := by rw [hplace]
  have hedge : atWordEdge c = true := by
    have hlast : c.last.any isWord = false := by
      rw [hplace]
      exact e.stopsBefore
    rw [e.heading.atWordEdge_eq hrest, hlast]
    rfl
  -- Behind the edge the pattern is plain: a heading fits it, and so does the name.
  have hheading := fits_plain_iff.mpr ⟨e.heading, hplain, rfl⟩
  have hname : (inOrder [declaredName]).Fits e.name := by
    refine ⟨e.name, [], (List.append_nil _).symm, fits_greedily.mpr ⟨?_, e.isWord_name⟩, rfl⟩
    exact List.length_pos_iff.mpr e.name_ne_nil
  obtain ⟨d, hd, hreach⟩ := exists_mem_ends_of_fits (by simp [optionalWord]) hheading hrest
  have hbehind : d.rest = e.name ++ e.after := List.append_cancel_left (hreach.rest.symm.trans hrest)
  obtain ⟨d', hd', -⟩ := exists_mem_ends_of_fits (by simp [declaredName, Plain]) hname hbehind
  have hends : d' ∈ (inOrder ([text "export", blanks 1, optionalWord "async",
      oneOf (["const", "function", "class"].map text), blanks 1] ++ [declaredName])).ends c := by
    rw [ends_inOrder_append]
    exact List.mem_flatMap.mpr ⟨d, hd, hd'⟩
  have hstart : c ∈ wordEdge.ends c := by
    rw [ends, if_pos hedge]
    exact List.mem_singleton_self c
  exact isSome_matchAt?_of_mem_ends (p := utility) (List.mem_flatMap.mpr ⟨c, hstart, hends⟩)

end Exported

/-! ## Names -/

theorem mem_warned_iff {x : Span} : x ∈ warned content ↔
    ∃ e : Exported content, e.heading.IsPlain ∧ e.utilityMatch ∈ utility.scan content ∧ e.span = x := by
  rw [warned, List.mem_filterMap]
  constructor
  · rintro ⟨m, hm, hx⟩
    obtain ⟨e, hplain, rfl⟩ := exists_exported_of_mem_utility hm
    exact ⟨e, hplain, hm, Option.some.inj hx⟩
  · rintro ⟨e, -, hm, rfl⟩
    exact ⟨e.utilityMatch, hm, rfl⟩

/-- Where a name is exported behind a plain heading, a utility is found, or the `export` of the heading is the name of
one. -/
theorem Exported.span_mem_or_opening_mem (e : Exported content) (hplain : e.heading.IsPlain) :
    e.span ∈ warned content ∨ e.opening ∈ warned content := by
  have hne : ∀ c m, utility.matchAt? c = some m → m.whole.text ≠ [] :=
    fun c m => whole_ne_nil_of_matchAt? utility_startsInLine.notNullable
  have hoffset : e.before.length ≤ content.length := by
    have hlength := congrArg List.length e.content_eq
    rw [List.length_append] at hlength
    omega
  obtain ⟨m, ⟨hm, hstart, hstop⟩, -⟩ := existsUnique_mem_scan hne hoffset (e.isSome_matchAt? hplain)
  obtain ⟨e', hplain', rfl⟩ := exists_exported_of_mem_utility hm
  have hmem : e'.span ∈ warned content := mem_warned_iff.mpr ⟨e', hplain', hm, rfl⟩
  rw [e'.stop_utilityMatch] at hstop
  rcases Nat.lt_or_eq_of_le hstart with hlt | heq
  · exact .inr (e.span_eq_opening e' hlt hstop ▸ hmem)
  · exact .inl (e'.eq_of_length_before_eq e heq ▸ hmem)

/-- **There is a warning about an exported name** iff its heading is plain and the `export` of the heading is not itself
a name that there is a warning about. -/
theorem Exported.span_mem_warned_iff (e : Exported content) :
    e.span ∈ warned content ↔ e.heading.IsPlain ∧ e.opening ∉ warned content := by
  constructor
  · intro h
    obtain ⟨e', hplain, hm, hspan⟩ := mem_warned_iff.mp h
    obtain rfl : e' = e := e'.eq_of_start_eq e (congrArg Span.start hspan)
    refine ⟨hplain, fun hopening => ?_⟩
    -- The utility that has the `export` as its name would overlap the one that begins with it.
    obtain ⟨u, -, hm', hspan'⟩ := mem_warned_iff.mp hopening
    have hstart : u.span.start = e'.before.length := congrArg Span.start hspan'
    have hless := u.length_before_lt
    have hname := List.length_pos_iff.mpr u.name_ne_nil
    have hstop := u.stop_utilityMatch
    have hstop' := e'.stop_utilityMatch
    have hbefore := e'.length_before_lt
    have hother : u.utilityMatch ≠ e'.utilityMatch := by
      intro heq
      have hsame : u.before.length = e'.before.length := congrArg (·.whole.start) heq
      omega
    rcases disjoint_of_mem_scan hm' hm hother with hle | hle
    · have hle : u.utilityMatch.stop ≤ e'.before.length := hle
      omega
    · have hle : e'.utilityMatch.stop ≤ u.before.length := hle
      omega
  · rintro ⟨hplain, hopening⟩
    exact (e.span_mem_or_opening_mem hplain).resolve_right hopening

/-- Every name that a declaration exports has a heading. -/
theorem exists_exported_of_mem_named {x : Span} (h : x ∈ named content) :
    ∃ e : Exported content, e.StartsLine ∧ e.span = x := by
  obtain ⟨m, hm, hx⟩ := List.mem_filterMap.mp h
  obtain ⟨e, hstarts, hmarked⟩ := exists_exported_of_mem_declaration hm
  exact ⟨e, hstarts, Option.some.inj (hmarked.symm.trans hx)⟩

/-- The names of exports are those that the matches mark. -/
theorem map_name_ofMatch {found : List Match} (h : ∀ m ∈ found, ∃ x, m.marked = some x) :
    (found.map ofMatch).map (·.name) = (found.filterMap (·.marked)).map fun x => String.ofList x.text := by
  induction found with
  | nil => rfl
  | cons m found ih =>
    obtain ⟨⟨x, hx⟩, hrest⟩ := List.forall_mem_cons.mp h
    rw [List.filterMap_cons_some hx, List.map_cons, List.map_cons, List.map_cons, ih hrest, ofMatch, Match.markedText,
      hx]
    rfl

theorem map_name_all : (all content).map (·.name) = (named content).map fun x => String.ofList x.text := by
  apply map_name_ofMatch
  intro m hm
  obtain ⟨e, -, hmarked⟩ := exists_exported_of_mem_declaration hm
  exact ⟨e.span, hmarked⟩

theorem map_name_utilities : (utilities content).map (·.name) = (warned content).map fun x => String.ofList x.text := by
  apply map_name_ofMatch
  intro m hm
  obtain ⟨e, -, rfl⟩ := exists_exported_of_mem_utility hm
  exact ⟨e.span, rfl⟩

end Export

namespace Check

/-- What is said of an exported utility. -/
def unusedWarning (s : Subject) (name : String) : Violation :=
  s.fault .unusedExport ("Exported function '" ++ name ++ "' may be unused - verify it's imported elsewhere") .warning

/-- **Which exports of a utility module there are warnings about**: those with a plain heading the `export` of which is
not itself a name that there is a warning about. -/
theorem unusedExports_eq (s : Subject)
    (hmarker : Text.occursIn s.settings.utilitiesMarker ("/" ++ s.rule.location) = true) :
    unusedExports s = (Export.warned s.text).map (fun x => unusedWarning s (String.ofList x.text)) ∧
      (Export.all s.text).map (·.name) = (Export.named s.text).map (fun x => String.ofList x.text) ∧
      (∀ x ∈ Export.named s.text, ∃ e : Export.Exported s.text, e.StartsLine ∧ e.span = x) ∧
      ∀ e : Export.Exported s.text,
        e.span ∈ Export.warned s.text ↔ e.heading.IsPlain ∧ e.opening ∉ Export.warned s.text := by
  refine ⟨?_, Export.map_name_all, fun _ => Export.exists_exported_of_mem_named, fun e => e.span_mem_warned_iff⟩
  calc unusedExports s = ((Export.utilities s.text).map (·.name)).map (unusedWarning s) := by
        rw [unusedExports, if_pos hmarker, List.map_map]
        rfl
    _ = _ := by
        rw [Export.map_name_utilities, List.map_map]
        rfl

/-- A utility module with the given text. -/
def utilityModule (text : String) : Subject where
  settings := { }
  file := "utils/ids.ts"
  rule := { location := "utils/ids.ts" }
  text := text.toList

/-- The name of the first utility in this module is the `export` of the next line. -/
def hiddenUtility : Subject := utilityModule "x export const\nexport const a = 1\nexport class B \x7b\x7d\n"

/-- The name in the second line. -/
def hiddenName : Export.Exported hiddenUtility.text where
  before := "x export const\n".toList
  heading :=
    { space := [' '], default? := none, async? := none, keyword := "const", gap := [' ']
      isSpace_space := ⟨by decide, List.forall_mem_singleton.mpr (by decide)⟩
      isSpace_default := fun _ h => by cases h
      isSpace_async := fun _ h => by cases h
      keyword_mem := by decide
      gap_ne_nil := by decide
      isGap_gap := List.forall_mem_singleton.mpr (by decide) }
  name := ['a']
  after := " = 1\nexport class B \x7b\x7d\n".toList
  content_eq := by decide +kernel
  stopsBefore := by decide
  name_ne_nil := by decide
  isWord_name := List.forall_mem_singleton.mpr (by decide)
  stopsWord_after := stopsWord_cons (by decide)

/-- There is no warning about the name whose `export` is hidden. -/
theorem unusedExports_eq_hiddenUtility :
    Text.occursIn hiddenUtility.settings.utilitiesMarker ("/" ++ hiddenUtility.rule.location) = true ∧
      unusedExports hiddenUtility = ["export", "B"].map (unusedWarning hiddenUtility) ∧
      (Export.all hiddenUtility.text).map (·.name) = ["a", "B"] ∧
      hiddenName.heading.IsPlain ∧ hiddenName.span ∉ Export.warned hiddenUtility.text := by
  have hmarker : Text.occursIn hiddenUtility.settings.utilitiesMarker ("/" ++ hiddenUtility.rule.location) = true := by
    decide +kernel
  have hwarned : Export.warned hiddenUtility.text = [⟨15, "export".toList⟩, ⟨47, "B".toList⟩] := by decide +kernel
  have hnamed : Export.named hiddenUtility.text = [⟨28, "a".toList⟩, ⟨47, "B".toList⟩] := by decide +kernel
  obtain ⟨hwarnings, hnames, -, hiff⟩ := unusedExports_eq hiddenUtility hmarker
  refine ⟨hmarker, ?_, ?_, ⟨rfl, by decide, List.forall_mem_singleton.mpr (by decide)⟩, ?_⟩
  · rw [hwarnings, hwarned]
    decide +kernel
  · rw [hnames, hnamed]
    decide +kernel
  · rw [hiff, hwarned]
    exact fun h => h.2 List.mem_cons_self

/-- **Not every export of a utility module is warned about**: there is no warning about a generator. -/
theorem not_forall_unusedWarning_mem : ¬ ∀ s : Subject,
    Text.occursIn s.settings.utilitiesMarker ("/" ++ s.rule.location) = true →
      ∀ e ∈ Export.all s.text, unusedWarning s e.name ∈ unusedExports s := by
  intro h
  have hmarker : Text.occursIn (utilityModule "export function* ids() \x7b\x7d\n").settings.utilitiesMarker
      ("/" ++ (utilityModule "export function* ids() \x7b\x7d\n").rule.location) = true := by decide +kernel
  have hall : Export.all (utilityModule "export function* ids() \x7b\x7d\n").text = [⟨"ids", 0⟩] := by decide +kernel
  have hnone : unusedExports (utilityModule "export function* ids() \x7b\x7d\n") = [] := by decide +kernel
  have hmem := h _ hmarker ⟨"ids", 0⟩ (hall ▸ List.mem_cons_self)
  rw [hnone] at hmem
  cases hmem

end Check

end Conformance
