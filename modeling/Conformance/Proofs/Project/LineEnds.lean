import Conformance.Proofs.Project.Accounting
import Conformance.Proofs.Rule.LineEnds
import Conformance.Proofs.Tree.Alike

/-!
# A project and the line ends of its files

The files of a project may end their lines with carriage returns or without (`Rewritten`). The same rule files are found
(`RuleSearch.alike_find`), each is read as the same rule with the same notes, unless it leaves a string open
(`Rewritten.ofBytes`), and the checks of a target see the same text (`Rewritten.subject`). So a check of the project
comes to the same (`Project.check_rewritten`).
-/

namespace Conformance

/-! ## What is found -/

/-- The same file up to what it holds. -/
def FoundFile.Alike (R : ByteArray → ByteArray → Prop) (f f' : FoundFile) : Prop := f.way = f'.way ∧ R f.bytes f'.bytes

/-- Lists whose members are related stay so when they are sorted by keys that related members share. -/
theorem forall₂_mergeSort {α β : Type} {P : α → β → Prop} {le : α → α → Bool} {le' : β → β → Bool}
    (hkeys : ∀ a a' b b', P a b → P a' b' → le a a' = le' b b') {xs : List α} {ys : List β} (h : List.Forall₂ P xs ys) :
    List.Forall₂ P (xs.mergeSort le) (ys.mergeSort le') := by
  obtain ⟨hlength, hpairs⟩ := List.forall₂_iff_zip.mp h
  -- Both sorted lists are projections of the sorted list of pairs.
  let pairs := (xs.zip ys).mergeSort fun z w => le z.1 w.1
  have hfirst : pairs.map Prod.fst = xs.mergeSort le := by
    rw [List.map_mergeSort (s := le) fun _ _ _ _ => rfl, List.map_fst_zip hlength.le]
  have hsecond : pairs.map Prod.snd = ys.mergeSort le' := by
    rw [List.map_mergeSort fun z hz w hw => hkeys _ _ _ _ (hpairs hz) (hpairs hw), List.map_snd_zip hlength.ge]
  rw [← hfirst, ← hsecond, List.forall₂_map_left_iff, List.forall₂_map_right_iff, List.forall₂_same]
  exact fun z hz => hpairs (List.mem_mergeSort.mp hz)

namespace RuleSearch

section

variable {R : ByteArray → ByteArray → Prop} {s : RuleSearch}

theorem alike_inNameOrder {found found' : List (String × List FoundFile)}
    (h : List.Forall₂ (fun a b => a.1 = b.1 ∧ List.Forall₂ (FoundFile.Alike R) a.2 b.2) found found') :
    List.Forall₂ (FoundFile.Alike R) (inNameOrder found) (inNameOrder found') := by
  refine List.rel_flatMap (forall₂_mergeSort (fun a a' b b' hab hab' => ?_) h) fun a b hab => hab.2
  rw [hab.1, hab'.1]

mutual

theorem alike_atTree (name : String) {t t' : Tree} (h : t.Alike R t') :
    List.Forall₂ (FoundFile.Alike R) (s.atTree name t) (s.atTree name t') := by
  cases h with
  | file hbytes =>
    rw [atTree, atTree]
    split
    · exact .cons ⟨rfl, hbytes⟩ .nil
    · exact .nil
  | folder hes =>
    rw [atTree, atTree]
    split
    · rw [List.forall₂_map_left_iff, List.forall₂_map_right_iff]
      exact (alike_inNameOrder (alike_atEntries hes)).imp fun f f' hf => ⟨congrArg (name :: ·) hf.1, hf.2⟩
    · exact .nil
termination_by sizeOf t

theorem alike_atEntries {es es' : List (String × Tree)} (h : Tree.AlikeEntries R es es') :
    List.Forall₂ (fun a b => a.1 = b.1 ∧ List.Forall₂ (FoundFile.Alike R) a.2 b.2) (s.atEntries es)
      (s.atEntries es') := by
  cases h with
  | nil => exact .nil
  | cons name ht hes =>
    rw [atEntries, atEntries, atEntry, atEntry]
    exact .cons ⟨rfl, alike_atTree name ht⟩ (alike_atEntries hes)
termination_by sizeOf es

end

/-- **The same files are found** in trees that are alike. -/
theorem alike_find {es es' : List (String × Tree)} (h : Tree.AlikeEntries R es es') :
    List.Forall₂ (FoundFile.Alike R) (s.find es) (s.find es') :=
  alike_inNameOrder (alike_atEntries h)

end

end RuleSearch

theorem Project.alike_ruleFiles {R : ByteArray → ByteArray → Prop} {d d' : Disk} (h : d.Alike R d') (root : Path)
    (search : RuleSearch) :
    Matching (List.Forall₂ (FoundFile.Alike R)) (ruleFiles d root search) (ruleFiles d' root search) := by
  have hget := h.get root
  rw [ruleFiles, ruleFiles, entriesAt, entriesAt]
  generalize d.get root = x at hget
  generalize d'.get root = y at hget
  cases hget with
  | error e => exact .error _
  | ok ht =>
    cases ht with
    | file => exact .error _
    | folder hes => exact .ok (RuleSearch.alike_find hes)

/-! ## Files with carriage returns -/

/-- The same file, or the file with carriage returns at the ends of its lines where there was none. -/
inductive Rewritten : ByteArray → ByteArray → Prop
  | same (bytes : ByteArray) : Rewritten bytes bytes
  | crlf {bytes : List UInt8} (h : 13 ∉ bytes) : Rewritten ⟨⟨bytes⟩⟩ ⟨⟨Text.Utf8.crlf bytes⟩⟩

namespace Rewritten

variable {bytes bytes' : ByteArray}

/-- The checks see the same. -/
theorem subject (h : Rewritten bytes bytes') (r : Run) (target : Path) (rule : Rule) :
    r.subject target rule bytes' = r.subject target rule bytes := by
  cases h with
  | same => rfl
  | crlf h => rw [Run.subject, Run.subject, Text.Utf8.unifyLineEnds_decode_crlf h]

/-- The same rule is read, with the same problems. -/
theorem ofBytes (h : Rewritten bytes bytes') (hclosed : Text.ClosesStrings (Text.Utf8.decode bytes.data.toList)) :
    ParsedRule.ofBytes bytes'.data.toList = ParsedRule.ofBytes bytes.data.toList := by
  cases h with
  | same => rfl
  | crlf => exact ParsedRule.ofBytes_crlf hclosed

end Rewritten

/-! ## Checks -/

variable {d d' : Disk}

namespace Run

theorem checkFile_rewritten (h : d.Alike Rewritten d') (r : Run) (target : Path) (rule : Rule) :
    r.checkFile d' target rule = r.checkFile d target rule := by
  have hfile := h.file? target
  rw [checkFile, checkFile]
  generalize d.file? target = x at hfile
  generalize d'.file? target = y at hfile
  cases hfile with
  | error e => rfl
  | ok hbytes =>
    cases hbytes with
    | none => rfl
    | some hbytes => simp only [hbytes.subject]

/-- **The line ends of targets do not matter.** -/
theorem checkRules_rewritten (h : d.Alike Rewritten d') (r : Run) (rules : List Rule) :
    r.checkRules d' rules = r.checkRules d rules := by
  induction rules generalizing r with
  | nil => rfl
  | cons rule rules ih =>
    by_cases hinert : rule.isInert
    · rw [checkRules_of_inert hinert, checkRules_of_inert hinert, ih]
    · rw [checkRules_of_not_inert hinert, checkRules_of_not_inert hinert, checkFile_rewritten h]
      cases r.checkFile d (r.target rule) rule with
      | error e => rfl
      | ok next => simp only [ih]

end Run

namespace Project

theorem readRule_rewritten {f f' : FoundFile} (h : f.Alike Rewritten f')
    (hclosed : Text.ClosesStrings (Text.Utf8.decode f.bytes.data.toList)) (root : Path) :
    readRule root f' = readRule root f := by
  rw [readRule, readRule, h.1, h.2.ofBytes hclosed]

theorem map_readRule_rewritten {found found' : List FoundFile}
    (h : List.Forall₂ (FoundFile.Alike Rewritten) found found')
    (hclosed : ∀ f ∈ found, Text.ClosesStrings (Text.Utf8.decode f.bytes.data.toList)) (root : Path) :
    found'.map (readRule root) = found.map (readRule root) := by
  induction h with
  | nil => rfl
  | cons hf _ ih =>
    obtain ⟨hhead, htail⟩ := List.forall_mem_cons.mp hclosed
    rw [List.map_cons, List.map_cons, readRule_rewritten hf hhead, ih htail]

/-- **The line ends of rule files and targets do not matter**, for the report as well as for the log records: however
many files get carriage returns, as long as they had none and no rule file leaves a string open. -/
theorem check_rewritten (h : d.Alike Rewritten d') (root : Path) (settings : Settings)
    (hclosed : ∀ found, ruleFiles d root (searchOf settings) = .ok found →
      ∀ f ∈ found, Text.ClosesStrings (Text.Utf8.decode f.bytes.data.toList)) :
    check d' root settings = check d root settings := by
  have hfound := alike_ruleFiles h root (searchOf settings)
  rw [check, check]
  generalize ruleFiles d root (searchOf settings) = x at hfound hclosed
  generalize ruleFiles d' root (searchOf settings) = y at hfound
  cases hfound with
  | error e => rfl
  | @ok found found' halike =>
    simp only [map_readRule_rewritten halike (hclosed found rfl), halike.length_eq, Run.checkRules_rewritten h]

/-- A disk with a rule file and the target of its rule. -/
def pairDisk (rule target : List UInt8) : Disk :=
  ⟨.folder [("a.rux", .file ⟨⟨rule⟩⟩), ("a.ts", .file ⟨⟨target⟩⟩)], []⟩

/-- A rule file with a byte in its second line that stands for no character. -/
def invalidRule : List UInt8 :=
  "location: \"a.ts\"\n# ".toUTF8.data.toList ++ 0xFF :: "\ndeny io.network.*\n".toUTF8.data.toList

/-- A target with a call in its second line. -/
def callTarget : List UInt8 := "\nfetch(1)\n".toUTF8.data.toList

theorem check_rewritten_invalidRule :
    let d := pairDisk invalidRule callTarget
    let d' := pairDisk (Text.Utf8.crlf invalidRule) (Text.Utf8.crlf callTarget)
    d.Alike Rewritten d' ∧ check d' ⟨.root, []⟩ {} = check d ⟨.root, []⟩ {} ∧
      ∃ report log, check d' ⟨.root, []⟩ {} = (.ok report, log) ∧ report.violations.map (·.line) = [some 2] ∧
        report.notes = [("a.rux", [⟨2, 3, "invalid UTF-8 byte sequence replaced"⟩])] := by
  intro d d'
  have hrule : 13 ∉ invalidRule := by decide +kernel
  have htarget : 13 ∉ callTarget := by decide +kernel
  have halike : d.Alike Rewritten d' :=
    ⟨.folder (.cons _ (.file (.crlf hrule)) (.cons _ (.file (.crlf htarget)) .nil)), rfl⟩
  have hfind : RuleSearch.find (searchOf {}) [("a.rux", .file ⟨⟨invalidRule⟩⟩), ("a.ts", .file ⟨⟨callTarget⟩⟩)] =
      [⟨["a.rux"], ⟨⟨invalidRule⟩⟩⟩] := by
    rw [RuleSearch.find, RuleSearch.inNameOrder, List.mergeSort_of_pairwise (by decide)]
    rfl
  have hfound := ruleFiles_eq_ok_iff.mpr ⟨_, (rfl : d.get ⟨.root, []⟩ = _), hfind⟩
  have hclosed : Text.ClosesStrings (Text.Utf8.decode invalidRule) := by decide +kernel
  have hsame := check_rewritten halike ⟨.root, []⟩ {} fun found hfound' => by
    obtain rfl := Except.ok.inj (hfound.symm.trans hfound')
    simpa using hclosed
  obtain ⟨report, log, h⟩ := exists_report hfound (by decide +kernel)
  obtain ⟨found, hfound', -, hviolations, -, -, hnotes⟩ := check_eq_ok h
  obtain rfl := Except.ok.inj (hfound.symm.trans hfound')
  refine ⟨halike, hsame, report, log, hsame.trans h, ?_, ?_⟩
  · rw [hviolations]
    decide +kernel
  · have hoffset : Text.Utf8.firstInvalid? invalidRule = some 19 := by
      let valid := (Text.Utf8.pieces invalidRule).takeWhile fun p => p.1.isSome
      have hlength : valid.length ≠ (Text.Utf8.pieces invalidRule).length := by decide +kernel
      have hsum : valid.foldl (fun n p => n + p.2) 0 = 19 := by decide +kernel
      rw [Text.Utf8.firstInvalid?]
      exact (if_neg hlength).trans (congrArg some hsum)
    have hclean : (ParsedRule.ofText (Text.Utf8.decode invalidRule)).diagnostics = [] := by decide +kernel
    simp only [hnotes, List.map_cons, List.map_nil, readRule, ParsedRule.ofBytes, hoffset, hclean, List.nil_append,
      ParsedRule.byPosition, List.mergeSort_singleton]
    decide +kernel

end Project

end Conformance
