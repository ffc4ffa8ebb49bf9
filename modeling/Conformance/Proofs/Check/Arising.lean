import Conformance.Proofs.Check.Opening
import Conformance.Proofs.Check.Quotation
import Conformance.Proofs.Text.Position

/-!
# What checks report

`Check.Arises` lists the ways in which a violation of a file comes about: it concerns the file as a whole, a utility, a
number of hooks, or a place in the text. Every violation that the checks of a file report arises in one of them
(`Check.arises_of_mem_ofFile`).

So violations are regular (`Violation.Regular`): their category is known, it tells how bad they are except for business
logic, and it tells whether they have a line except for numbers of hooks. The line is one of the lines of the text
(`Check.Arises.line_mem`). No check of a file reports a file as missing (`Check.countP_missing`).
-/

namespace Conformance

namespace Check

/-- What is said of `n` state hooks, if they are too many. -/
def stateHooksMessage (n : Nat) : String :=
  "Too many state hooks (" ++ toString n ++ "). Consider extracting complex state logic to a custom hook"

/-- What is said of `n` effect hooks, if they are too many. -/
def effectHooksMessage (n : Nat) : String :=
  "Multiple useEffect hooks (" ++ toString n ++ ") suggest business logic. Consider extracting to custom hooks"

/-- Whether a message is about a number of hooks. -/
def CountsHooks (message : String) : Prop := ∃ n, message = stateHooksMessage n ∨ message = effectHooksMessage n

theorem head?_stateHooksMessage (n : Nat) : (stateHooksMessage n).toList.head? = some 'T' := by
  have hliteral : "Too many state hooks (".toList.head? = some 'T' := by decide
  unfold stateHooksMessage
  simp only [String.toList_append, List.head?_append, hliteral, Option.some_or]

theorem head?_effectHooksMessage (n : Nat) : (effectHooksMessage n).toList.head? = some 'M' := by
  have hliteral : "Multiple useEffect hooks (".toList.head? = some 'M' := by decide
  unfold effectHooksMessage
  simp only [String.toList_append, List.head?_append, hliteral, Option.some_or]

/-- **How a violation of a file comes about.** -/
inductive Arises (s : Subject) : Violation → Prop
  | ofFile {category : Category} {message : String} (hcategory : category ∈ [.fileSize, .pattern]) :
      Arises s (s.fault category message)
  | ofUtility {message : String} : Arises s (s.fault .unusedExport message .warning)
  | ofHooks {message : String} (hcounts : CountsHooks message) : Arises s (s.fault .businessLogic message .warning)
  | ofPlace {offset : Nat} {category : Category} {message : String} (hoffset : offset < s.text.length)
      (hcategory : category ∈ [.forbiddenImport, .operation, .forbiddenExport]) :
      Arises s (s.faultAt offset category message)
  | ofLogic {offset : Nat} {message : String} {severity : Severity} (hoffset : offset < s.text.length)
      (hcounts : ¬ CountsHooks message) (hseverity : severity ∈ [Severity.error, .warning]) :
      Arises s (s.faultAt offset .businessLogic message severity)

end Check

/-! ## Places of what is found -/

theorem Import.offset_lt {text : List Char} {i : Import} (h : i ∈ Import.all text) : i.offset < text.length := by
  have hstarts : ∀ p ∈ [statement, reexport], p.StartsInLine := by
    simp [statement_startsInLine, reexport_startsInLine]
  obtain ⟨p, hp, m, hm, rfl⟩ := exists_match_of_mem_all h
  exact Pattern.start_lt_of_mem_scan (hstarts p hp).notNullable hm

theorem Export.offset_lt {text : List Char} {e : Export} (h : e ∈ Export.all text) : e.offset < text.length := by
  obtain ⟨m, hm, rfl⟩ := List.mem_map.mp h
  exact Pattern.start_lt_of_mem_scan declaration_startsInLine.notNullable hm

theorem Operation.start_lt {o : Operation} {text : List Char} {m : Match}
    (h : m ∈ o.patterns.flatMap (·.scan text)) : m.whole.start < text.length := by
  obtain ⟨p, hp, hm⟩ := List.mem_flatMap.mp h
  exact Pattern.start_lt_of_mem_scan (o.startsInLine_of_mem_patterns p hp).notNullable hm

/-- No message of the catalogue begins like one about a number of hooks. -/
theorem Logic.not_countsHooks_message {f : Logic.Finding} (h : f.signature ∈ Logic.Signature.catalogue) :
    ¬ Check.CountsHooks f.message := by
  have hall : (Signature.catalogue.all fun g => g.message.toList.head?.any fun x => x != 'T' && x != 'M') = true := by
    decide +kernel
  obtain ⟨x, hx, hne⟩ := (Option.any_eq_true _ _).mp (List.all_eq_true.mp hall _ h)
  simp only [Bool.and_eq_true, bne_iff_ne] at hne
  have hhead : f.message.toList.head? = some x := by
    simp only [Finding.message, String.toList_append, List.head?_append, hx, Option.some_or]
  rintro ⟨n, heq | heq⟩
  · rw [heq, Check.head?_stateHooksMessage] at hhead
    exact hne.1 (Option.some.inj hhead).symm
  · rw [heq, Check.head?_effectHooksMessage] at hhead
    exact hne.2 (Option.some.inj hhead).symm

/-! ## Checks of a file -/

namespace Check

variable {s : Subject} {v : Violation}

theorem arises_of_mem_size (h : v ∈ size s) : Arises s v := by
  rw [size] at h
  split at h
  · cases h
  · obtain rfl := List.mem_singleton.mp (List.mem_ite_nil_right.mp h).2
    exact .ofFile (by decide)

theorem arises_of_mem_imports (h : v ∈ imports s) : Arises s v := by
  obtain ⟨i, hi, h⟩ := List.mem_flatMap.mp h
  have hoffset := Import.offset_lt hi
  rcases List.mem_append.mp h with h | h
  · obtain ⟨p, -, rfl⟩ := List.mem_map.mp h
    exact .ofPlace hoffset (by decide)
  · obtain rfl := List.mem_singleton.mp (List.mem_ite_nil_right.mp h).2
    exact .ofPlace hoffset (by decide)

theorem arises_of_mem_operations (h : v ∈ operations s) : Arises s v := by
  obtain ⟨target, -, h⟩ := List.mem_flatMap.mp h
  split at h
  · obtain ⟨m, hm, rfl⟩ := List.mem_map.mp h
    exact .ofPlace (Operation.start_lt hm) (by decide)
  · cases h

theorem arises_of_mem_exports (h : v ∈ exports s) : Arises s v := by
  obtain ⟨e, he, h⟩ := List.mem_flatMap.mp h
  have hoffset := Export.offset_lt he
  rcases List.mem_append.mp h with h | h
  · obtain rfl := List.mem_singleton.mp (List.mem_ite_nil_right.mp h).2
    exact .ofPlace hoffset (by decide)
  · obtain ⟨p, -, rfl⟩ := List.mem_map.mp h
    exact .ofPlace hoffset (by decide)

theorem arises_of_mem_unusedExports (h : v ∈ unusedExports s) : Arises s v := by
  obtain ⟨e, -, rfl⟩ := List.mem_map.mp (List.mem_ite_nil_right.mp h).2
  exact .ofUtility

theorem arises_of_mem_containerStructure (h : v ∈ containerStructure s) : Arises s v := by
  rcases List.mem_append.mp h with h | h
  all_goals
    obtain rfl := List.mem_singleton.mp (List.mem_ite_nil_right.mp h).2
    exact .ofFile (by decide)

theorem arises_of_mem_hookComplexity (h : v ∈ hookComplexity s) : Arises s v := by
  rcases List.mem_append.mp h with h | h
  · obtain rfl := List.mem_singleton.mp (List.mem_ite_nil_right.mp h).2
    exact .ofHooks ⟨_, .inl rfl⟩
  · obtain rfl := List.mem_singleton.mp (List.mem_ite_nil_right.mp h).2
    exact .ofHooks ⟨_, .inr rfl⟩

theorem arises_of_mem_logicFindings (h : v ∈ logicFindings s) : Arises s v := by
  obtain ⟨f, hf, rfl⟩ := List.mem_map.mp h
  obtain ⟨hsignature, m, hm, hline⟩ := Logic.exists_match_of_mem_findings hf
  have hpattern := Logic.Signature.startsInLine_of_mem_catalogue _ hsignature
  have hoffset := Pattern.start_lt_of_mem_scan hpattern.notNullable hm
  rw [hline]
  exact .ofLogic hoffset (Logic.not_countsHooks_message hsignature) (Logic.lineFeed_notMem_message hsignature).1

theorem arises_of_mem_businessLogic (h : v ∈ businessLogic s) : Arises s v := by
  rw [businessLogic] at h
  split at h
  · cases h
  · rcases List.mem_append.mp h with h | h
    · exact arises_of_mem_containerStructure (List.mem_ite_nil_right.mp h).2
    · rcases List.mem_append.mp (List.mem_ite_nil_right.mp h).2 with h | h
      · exact arises_of_mem_logicFindings h
      · exact arises_of_mem_hookComplexity h

/-- **Every violation of a file arises in one of these ways.** -/
theorem arises_of_mem_ofFile (h : v ∈ ofFile.flatMap fun check => check s) : Arises s v := by
  simp only [ofFile, List.flatMap_cons, List.flatMap_nil, List.append_nil, List.mem_append] at h
  rcases h with h | h | h | h | h | h
  · exact arises_of_mem_size h
  · exact arises_of_mem_imports h
  · exact arises_of_mem_operations h
  · exact arises_of_mem_exports h
  · exact arises_of_mem_unusedExports h
  · exact arises_of_mem_businessLogic h

end Check

/-! ## Regular violations -/

/-- What categories tell of violations. -/
structure Violation.Regular (v : Violation) : Prop where
  known : v.category ∈ Category.all
  severity_mem : v.severity ∈ [Severity.error, .warning]
  isError : v.category ∈ [.missing, .fileSize, .forbiddenImport, .operation, .forbiddenExport, .pattern] →
    v.severity = .error
  isWarning : v.category = .unusedExport → v.severity = .warning
  line_eq_none_iff : v.line = none ↔ v.category ∈ [.missing, .fileSize, .unusedExport, .pattern] ∨
    v.category = .businessLogic ∧ Check.CountsHooks v.message

namespace Violation

variable {v : Violation} (herror : v.severity = .error)
include herror

/-- Errors that concern a file as a whole are regular. -/
theorem regular_of_line_eq_none (hcategory : v.category ∈ [.missing, .fileSize, .pattern]) (hline : v.line = none) :
    v.Regular := by
  have hcategories : ∀ c ∈ [Category.missing, .fileSize, .pattern],
      c ∈ Category.all ∧ c ≠ .unusedExport ∧ c ∈ [.missing, .fileSize, .unusedExport, .pattern] := by decide
  obtain ⟨hknown, hne, hplaceless⟩ := hcategories _ hcategory
  constructor
  · exact hknown
  · exact herror ▸ List.mem_cons_self
  · exact fun _ => herror
  · exact fun h => absurd h hne
  · exact iff_of_true hline (.inl hplaceless)

/-- Errors at the place of a use of something forbidden are regular. -/
theorem regular_of_line_ne_none (hcategory : v.category ∈ [.forbiddenImport, .operation, .forbiddenExport])
    (hline : v.line ≠ none) : v.Regular := by
  have hcategories : ∀ c ∈ [Category.forbiddenImport, .operation, .forbiddenExport],
      c ∈ Category.all ∧ c ≠ .unusedExport ∧ c ∉ [.missing, .fileSize, .unusedExport, .pattern] ∧
        c ≠ .businessLogic := by decide
  obtain ⟨hknown, hne, hplaced, hlogic⟩ := hcategories _ hcategory
  constructor
  · exact hknown
  · exact herror ▸ List.mem_cons_self
  · exact fun _ => herror
  · exact fun h => absurd h hne
  · exact iff_of_false hline (not_or_intro hplaced fun h => hlogic h.1)

end Violation

namespace Check.Arises

variable {s : Subject} {v : Violation} (h : Arises s v)
include h

/-- Violations are of the file that is checked. -/
theorem file_eq : v.file = s.file := by
  cases h <;> rfl

/-- The line of a violation is one of the lines of the text. -/
theorem line_mem {n : Int} (hline : v.line = some n) : 1 ≤ n ∧ n ≤ Text.countLines s.text := by
  have hplace : ∃ offset, offset < s.text.length ∧ n = Text.lineAt s.text offset := by
    cases h with
    | ofFile | ofUtility | ofHooks => cases hline
    | ofPlace hoffset | ofLogic hoffset => exact ⟨_, hoffset, (Option.some.inj hline).symm⟩
  obtain ⟨offset, hoffset, rfl⟩ := hplace
  have hle := Text.lineAt_le_countLines hoffset
  have hpos := Text.one_le_lineAt s.text offset
  omega

/-- **Violations of a file are regular.** -/
theorem regular : v.Regular := by
  have hunused : ∀ c ∈ [Category.missing, .fileSize, .forbiddenImport, .operation, .forbiddenExport, .pattern],
      c ≠ .unusedExport ∧ c ≠ .businessLogic := by decide
  cases h with
  | ofFile hcategory => exact Violation.regular_of_line_eq_none rfl (List.mem_cons_of_mem _ hcategory) rfl
  | ofPlace _ hcategory => exact Violation.regular_of_line_ne_none rfl hcategory (Option.some_ne_none _)
  | ofUtility =>
    constructor
    · exact (by decide : Category.unusedExport ∈ Category.all)
    · exact List.mem_cons_of_mem _ List.mem_cons_self
    · exact fun h => absurd rfl (hunused _ h).1
    · exact fun _ => rfl
    · exact iff_of_true rfl (.inl (by decide : Category.unusedExport ∈ _))
  | ofHooks hcounts =>
    constructor
    · exact (by decide : Category.businessLogic ∈ Category.all)
    · exact List.mem_cons_of_mem _ List.mem_cons_self
    · exact fun h => absurd rfl (hunused _ h).2
    · exact fun h => absurd h (by decide : Category.businessLogic ≠ .unusedExport)
    · exact iff_of_true rfl (.inr ⟨rfl, hcounts⟩)
  | ofLogic _ hcounts hseverity =>
    constructor
    · exact (by decide : Category.businessLogic ∈ Category.all)
    · exact hseverity
    · exact fun h => absurd rfl (hunused _ h).2
    · exact fun h => absurd h (by decide : Category.businessLogic ≠ .unusedExport)
    · refine iff_of_false (Option.some_ne_none _) (not_or_intro ?_ fun h => hcounts h.2)
      exact (by decide : Category.businessLogic ∉ [Category.missing, .fileSize, .unusedExport, .pattern])

theorem category_ne_missing : v.category ≠ .missing := by
  cases h with
  | @ofFile category _ hcategory | @ofPlace _ category _ _ hcategory =>
    rintro (rfl : category = .missing)
    exact absurd hcategory (by decide)
  | ofUtility => exact (by decide : Category.unusedExport ≠ .missing)
  | ofHooks | ofLogic => exact (by decide : Category.businessLogic ≠ .missing)

end Check.Arises

/-- **The checks of a file never report it as missing.** -/
theorem Check.countP_missing (s : Subject) :
    (ofFile.flatMap fun check => check s).countP (·.category = .missing) = 0 := by
  rw [List.countP_eq_zero]
  intro v hv
  simpa using (arises_of_mem_ofFile hv).category_ne_missing

end Conformance
