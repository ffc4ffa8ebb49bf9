import Mathlib.Data.List.Infix
import Conformance.Rule.Parser
import Conformance.Proofs.Rule.Wording

/-!
# The shapes of statements

Each kind of statement has a pattern that says which tokens make one (`moduleAt`, `locationAt`, …), and a token is read
as a statement iff the statement's pattern occurs there (`read_iff`). `occurrences` lists what a pattern finds among
tokens.

Patterns do not look at positions, so that a rule text says what its wording says (`ofText_eq_wording`).
-/

namespace Conformance

/-- The statements that tokens make. -/
def Statement.ofTokens (ts : List Token) : List Statement :=
  (Statement.readings ts).filterMap (·.statement?)

/-- The rule that tokens write. -/
def Rule.ofTokens (ts : List Token) : Rule := (Statement.ofTokens ts).foldl Rule.add {}

theorem Rule.ofText_eq (text : List Char) : Rule.ofText text = Rule.ofTokens (Token.ofText text) := rfl

theorem Statement.ofTokens_cons (t : Token) (ts : List Token) :
    Statement.ofTokens (t :: ts) = (Statement.read t ts).statement?.toList ++ Statement.ofTokens ts := by
  rw [ofTokens, readings, List.filterMap_cons]
  cases (Statement.read t ts).statement? <;> rfl

namespace Shape

/-! ## Patterns -/

variable {α β : Type}

/-- What follows the identifier `key`. -/
def afterIdent (key : String) (next : List Token → Option α) : List Token → Option α
  | [] => none
  | t :: ts => if t.isIdent key then next ts else none

/-- What follows the punctuation mark `mark`. -/
def afterPunct (mark : String) (next : List Token → Option α) : List Token → Option α
  | [] => none
  | t :: ts => if t.isPunct mark then next ts else none

/-- A string. -/
def string? : List Token → Option String
  | [] => none
  | t :: _ => if t.kind = .string then some t.value else none

/-- A number that is not too long. -/
def limit? : List Token → Option Nat
  | [] => none
  | t :: _ =>
    if t.kind = .number ∧ t.value.length ≤ Statement.longestLimit then some (Text.decimalValue t.value.toList)
    else none

/-- An identifier before an opening brace. -/
def name? : List Token → Option String
  | [] => none
  | t :: ts => if t.kind = .ident then afterPunct "\x7b" (fun _ => some t.value) ts else none

/-- The values of the strings in the longest run of strings and commas. -/
def run (ts : List Token) : List String :=
  ((ts.takeWhile fun t => t.kind == .string || t.isPunct ",").filter (·.kind == .string)).map (·.value)

/-- Whether a word names no imports, exports or files. -/
def IsOperation (word : String) : Prop :=
  ∀ reserved ∈ ["imports", "exports", "file."], ¬ reserved.toList <:+: word.toList

theorem isReserved_eq_false_iff {word : String} : Statement.isReserved word = false ↔ IsOperation word := by
  have hoccurs : ∀ s : String, Text.occursIn s word = false ↔ ¬ s.toList <:+: word.toList := by
    intro s
    rw [← Bool.not_eq_true, Text.occursIn, Text.occurs_iff]
    exact not_congr ⟨fun ⟨u, v, h⟩ => ⟨u, v, h.symm⟩, fun ⟨u, v, h⟩ => ⟨u, v, h.symm⟩⟩
  simp [Statement.isReserved, IsOperation, hoccurs, and_assoc]

instance (word : String) : Decidable (IsOperation word) := decidable_of_iff _ isReserved_eq_false_iff

/-- An identifier that is an operation. -/
def operation? : List Token → Option String
  | [] => none
  | t :: _ => if t.kind = .ident ∧ IsOperation t.value then some t.value else none

/-! ## The pattern of each field -/

/-- `module NAME {` -/
def moduleAt : List Token → Option String := afterIdent "module" name?

/-- `location: "…"` -/
def locationAt : List Token → Option String := afterIdent "location" (afterPunct ":" string?)

/-- `allow "…"` -/
def allowAt : List Token → Option String := afterIdent "allow" string?

/-- `deny imports […]` or `deny exports […]` -/
def listAt (target : String) : List Token → Option (List String) :=
  afterIdent "deny" (afterIdent target (afterPunct "[" (some ∘ run)))

/-- `deny OPERATION` -/
def operationAt : List Token → Option String := afterIdent "deny" operation?

/-- `deny file.lines > NUMBER` -/
def limitAt : List Token → Option Nat := afterIdent "deny" (afterIdent "file.lines" (afterPunct ">" limit?))

/-- `@ "Presentation component"`, a longer annotation, or `type: "presentation"` -/
def markAt : List Token → Option Unit
  | [] => none
  | t :: ts =>
    if t.isPunct "@" ∧ (∃ note ∈ Statement.presentationAnnotations, string? ts = some note) ∨
        t.isIdent "type" ∧ afterPunct ":" string? ts = some Role.presentation.name then some ()
    else none

/-- What a pattern finds among the tokens, place after place. -/
def occurrences (pattern : List Token → Option α) (ts : List Token) : List α := ts.tails.filterMap pattern

section Cons

variable (t : Token) (ts : List Token)

@[simp] theorem moduleAt_cons : moduleAt (t :: ts) = if t.isIdent "module" then name? ts else none := rfl

@[simp] theorem locationAt_cons :
    locationAt (t :: ts) = if t.isIdent "location" then afterPunct ":" string? ts else none := rfl

@[simp] theorem allowAt_cons : allowAt (t :: ts) = if t.isIdent "allow" then string? ts else none := rfl

@[simp] theorem listAt_cons (target : String) : listAt target (t :: ts) =
    if t.isIdent "deny" then afterIdent target (afterPunct "[" (some ∘ run)) ts else none := rfl

@[simp] theorem operationAt_cons : operationAt (t :: ts) = if t.isIdent "deny" then operation? ts else none := rfl

@[simp] theorem limitAt_cons : limitAt (t :: ts) =
    if t.isIdent "deny" then afterIdent "file.lines" (afterPunct ">" limit?) ts else none := rfl

@[simp] theorem markAt_cons_eq_some : markAt (t :: ts) = some () ↔
    t.isPunct "@" = true ∧ (∃ note ∈ Statement.presentationAnnotations, string? ts = some note) ∨
      t.isIdent "type" = true ∧ afterPunct ":" string? ts = some Role.presentation.name := by
  rw [markAt, Option.ite_none_right_eq_some, and_iff_left rfl]

end Cons

end Shape

open Shape

/-! ## Where statements are read -/

namespace Token

variable {t : Token} {a b : String}

theorem isIdent_iff : t.isIdent a = true ↔ t.kind = .ident ∧ t.value = a := by
  simp [isIdent]

theorem isPunct_iff : t.isPunct a = true ↔ t.kind = .punct ∧ t.value = a := by
  simp [isPunct]

theorem isIdent_of_kind (h : t.kind = .ident) : t.isIdent a = (t.value == a) := by
  simp [isIdent, h]

theorem isIdent_of_kind_ne (h : t.kind ≠ .ident) : t.isIdent a = false := by
  simp [isIdent, h]

theorem isIdent_of_ne (h : t.isIdent a = true) (hne : a ≠ b) : t.isIdent b = false := by
  rw [isIdent_iff] at h
  simp [isIdent, h, hne]

theorem isPunct_of_isIdent (h : t.isIdent a = true) : t.isPunct b = false := by
  rw [isIdent_iff] at h
  simp [isPunct, h]

end Token

namespace Statement

/-- Whether the pattern of a statement occurs at the beginning of the tokens. -/
def Found (ts : List Token) : Statement → Prop
  | .moduleName name => moduleAt ts = some name
  | .location path => locationAt ts = some path
  | .allowImport pattern => allowAt ts = some pattern
  | .denyImports patterns => listAt "imports" ts = some patterns
  | .denyExports patterns => listAt "exports" ts = some patterns
  | .denyOperation target => operationAt ts = some target
  | .limitLines most => limitAt ts = some most
  | .markPresentation => markAt ts = some ()

theorem readModule_statement (t : Token) (ts : List Token) :
    (readModule t ts).statement? = (name? ts).map .moduleName := by
  rcases ts with - | ⟨name, - | ⟨brace, ts⟩⟩
  · rfl
  · by_cases hn : name.kind = .ident <;> simp [readModule, name?, afterPunct, hn, Reading.fails]
  · by_cases hn : name.kind = .ident <;> by_cases hb : brace.isPunct "\x7b" = true <;>
      simp [readModule, name?, afterPunct, hn, hb, Reading.fails, Reading.gives]

theorem readSetting_statement (t : Token) (ts : List Token) (use : String → Option Statement) :
    (readSetting t ts use).statement? = (afterPunct ":" string? ts).bind use := by
  rcases ts with - | ⟨colon, - | ⟨value, ts⟩⟩
  · rfl
  · by_cases hc : colon.isPunct ":" = true <;> simp [readSetting, afterPunct, string?, hc, Reading.fails]
  · by_cases hc : colon.isPunct ":" = true <;> by_cases hv : value.kind = .string <;>
      simp [readSetting, afterPunct, string?, hc, hv, Reading.fails]

theorem readAllow_statement (t : Token) (ts : List Token) :
    (readAllow t ts).statement? = (string? ts).map .allowImport := by
  rcases ts with - | ⟨pattern, ts⟩
  · rfl
  · by_cases hp : pattern.kind = .string <;> simp [readAllow, string?, hp, Reading.fails, Reading.gives]

theorem readAt_statement (ts : List Token) : (readAt ts).statement? =
    ((string? ts).filter (· ∈ presentationAnnotations)).map fun _ => .markPresentation := by
  rcases ts with - | ⟨note, ts⟩
  · rfl
  · by_cases hk : note.kind = .string <;> by_cases hm : note.value ∈ presentationAnnotations <;>
      simp [string?, readAt, hk, hm, Reading.gives, Option.filter]

theorem run_cons (t : Token) (ts : List Token) :
    run (t :: ts) = if t.kind = .string then t.value :: run ts else if t.isPunct "," = true then run ts else [] := by
  by_cases hk : t.kind = .string
  · simp [run, hk]
  · by_cases hp : t.isPunct "," = true <;> simp [run, hk, hp]

theorem readPatterns_fst (opening : Token) (ts : List Token) : (readPatterns opening ts).1 = run ts := by
  induction ts with
  | nil => rfl
  | cons t ts ih =>
    rw [run_cons, readPatterns]
    by_cases hclose : t.isPunct "]" = true
    · obtain ⟨hk, hv⟩ := Token.isPunct_iff.mp hclose
      simp [hk, hv, Token.isPunct]
    · by_cases hk : t.kind = .string
      · simp [hclose, hk, ih]
      · by_cases hp : t.isPunct "," = true <;> simp [hclose, hk, hp, ih]

theorem readPatternList_statement (t : Token) (ts : List Token) (use : List String → Statement) :
    (readPatternList t ts use).statement? = (afterPunct "[" (some ∘ run) ts).map use := by
  rcases ts with - | ⟨opening, ts⟩
  · rfl
  · by_cases ho : opening.isPunct "[" = true <;>
      simp [readPatternList, afterPunct, ho, Reading.fails, readPatterns_fst]

theorem readFileLimit_statement {t : Token} (ht : t.value = "file.lines") (ts : List Token) :
    (readFileLimit t ts).statement? = (afterPunct ">" limit? ts).map .limitLines := by
  rcases ts with - | ⟨op, - | ⟨limit, ts⟩⟩
  · simp [readFileLimit, ht, afterPunct, Reading.fails]
  · simp [readFileLimit, ht, afterPunct, limit?, Reading.fails]
  · by_cases hop : op.isPunct ">" = true
    · by_cases hk : limit.kind = .number
      · by_cases hl : limit.value.length ≤ longestLimit <;>
          simp [readFileLimit, ht, afterPunct, limit?, hop, hk, hl, Reading.fails, Reading.gives]
      · simp [readFileLimit, ht, afterPunct, limit?, hop, hk, Reading.fails]
    · simp [readFileLimit, ht, afterPunct, hop, Reading.fails]

theorem readFileLimit_other {t : Token} (ht : t.value ≠ "file.lines") (ts : List Token) :
    (readFileLimit t ts).statement? = none := by
  simp [readFileLimit, ht, Reading.fails]

theorem not_isOperation_of_prefix {word : String} (h : ['f', 'i', 'l', 'e', '.'] <+: word.toList) :
    ¬ IsOperation word :=
  fun hop => hop "file." (by simp) h.isInfix

/-- What `deny` says: the pattern of a denial occurs at the target. -/
theorem readDeny_iff {t : Token} (ht : t.isIdent "deny" = true) {ts : List Token} {s : Statement} :
    (readDeny t ts).statement? = some s ↔ s.Found (t :: ts) := by
  have hne := fun b => t.isIdent_of_ne (b := b) ht
  have hp := fun b => t.isPunct_of_isIdent (b := b) ht
  rcases ts with - | ⟨target, ts⟩
  · cases s <;> simp [readDeny, Found, ht, hne, hp, afterIdent, operation?, Reading.fails]
  by_cases hk : target.kind = .ident
  swap
  · have hv := fun b => target.isIdent_of_kind_ne (a := b) hk
    cases s <;> simp [readDeny, Found, ht, hne, hp, hk, hv, afterIdent, operation?, Reading.fails]
  have hv := fun b => target.isIdent_of_kind (a := b) hk
  by_cases hi : target.value = "imports"
  · have hop : ¬ IsOperation "imports" := by decide
    rw [readDeny, if_pos hk, if_pos hi, readPatternList_statement]
    cases s <;> simp [Found, ht, hne, hp, hk, hv, hi, hop, afterIdent, operation?]
  by_cases he : target.value = "exports"
  · have hop : ¬ IsOperation "exports" := by decide
    rw [readDeny, if_pos hk, if_neg hi, if_pos he, readPatternList_statement]
    cases s <;> simp [Found, ht, hne, hp, hk, hv, he, hop, afterIdent, operation?]
  by_cases hf : "file.".toList <+: target.value.toList
  · have hop := not_isOperation_of_prefix hf
    rw [readDeny, if_pos hk, if_neg hi, if_neg he, if_pos (List.isPrefixOf_iff_prefix.mpr hf)]
    by_cases hl : target.value = "file.lines"
    · rw [readFileLimit_statement hl]
      rw [hl] at hop
      cases s <;> simp [Found, ht, hne, hp, hk, hv, hl, hop, afterIdent, operation?]
    · rw [readFileLimit_other hl]
      cases s <;> simp [Found, ht, hne, hp, hk, hv, hi, he, hl, hop, afterIdent, operation?]
  have hl : target.value ≠ "file.lines" := fun hl => hf (by rw [hl]; decide)
  have hf' : ¬ "file.".toList.isPrefixOf target.value.toList = true := mt List.isPrefixOf_iff_prefix.mp hf
  rw [readDeny, if_pos hk, if_neg hi, if_neg he, if_neg hf']
  by_cases hop : IsOperation target.value
  · have hr := isReserved_eq_false_iff.mpr hop
    cases s <;> simp [Found, ht, hne, hp, hk, hv, hi, he, hl, hop, hr, afterIdent, operation?]
  · have hr : isReserved target.value = true := by
      rwa [← isReserved_eq_false_iff, Bool.not_eq_false] at hop
    cases s <;> simp [Found, ht, hne, hp, hk, hv, hi, he, hl, hop, hr, afterIdent, operation?, Reading.fails]

/-- **A token is read as a statement iff the statement's pattern occurs there.** -/
theorem read_iff {t : Token} {ts : List Token} {s : Statement} :
    (read t ts).statement? = some s ↔ s.Found (t :: ts) := by
  by_cases hmodule : t.isIdent "module" = true
  · have hne := fun b => t.isIdent_of_ne (b := b) hmodule
    have hp := fun b => t.isPunct_of_isIdent (b := b) hmodule
    rw [read, if_pos hmodule, readModule_statement]
    cases s <;> simp [Found, hmodule, hne, hp]
  by_cases hlocation : t.isIdent "location" = true
  · have hne := fun b => t.isIdent_of_ne (b := b) hlocation
    have hp := fun b => t.isPunct_of_isIdent (b := b) hlocation
    rw [read, if_neg hmodule, if_pos hlocation, readSetting_statement]
    cases s <;> simp [Found, hlocation, hne, hp, Option.bind_eq_some_iff]
  by_cases htype : t.isIdent "type" = true
  · have hne := fun b => t.isIdent_of_ne (b := b) htype
    have hp := fun b => t.isPunct_of_isIdent (b := b) htype
    rw [read, if_neg hmodule, if_neg hlocation, if_pos htype, readSetting_statement]
    cases s <;> simp [Found, htype, hne, hp, Option.bind_eq_some_iff]
  by_cases hallow : t.isIdent "allow" = true
  · have hne := fun b => t.isIdent_of_ne (b := b) hallow
    have hp := fun b => t.isPunct_of_isIdent (b := b) hallow
    rw [read, if_neg hmodule, if_neg hlocation, if_neg htype, if_pos hallow, readAllow_statement]
    cases s <;> simp [Found, hallow, hne, hp]
  by_cases hdeny : t.isIdent "deny" = true
  · rw [read, if_neg hmodule, if_neg hlocation, if_neg htype, if_neg hallow, if_pos hdeny]
    exact readDeny_iff hdeny
  by_cases hat : t.isPunct "@" = true
  · rw [read, if_neg hmodule, if_neg hlocation, if_neg htype, if_neg hallow, if_neg hdeny, if_pos hat,
      readAt_statement]
    cases s <;> simp [Found, hmodule, hlocation, htype, hallow, hdeny, hat, and_comm]
  · rw [read, if_neg hmodule, if_neg hlocation, if_neg htype, if_neg hallow, if_neg hdeny, if_neg hat]
    cases s <;> simp [Found, hmodule, hlocation, htype, hallow, hdeny, hat]

end Statement

/-! ## What patterns find -/

theorem occurrences_cons {α : Type} (pattern : List Token → Option α) (t : Token) (ts : List Token) :
    occurrences pattern (t :: ts) = (pattern (t :: ts)).toList ++ occurrences pattern ts := by
  rw [occurrences, List.tails_cons, List.filterMap_cons]
  cases pattern (t :: ts) <;> rfl

theorem mem_occurrences {α : Type} {pattern : List Token → Option α} {ts : List Token} {x : α} :
    x ∈ occurrences pattern ts ↔ ∃ us, us <:+ ts ∧ pattern us = some x := by
  simp [occurrences, List.mem_filterMap]

section Find

variable {ts : List Token}

theorem exists_of_afterIdent {α : Type} {key : String} {next : List Token → Option α} {x : α}
    (h : afterIdent key next ts = some x) : ∃ t us, ts = t :: us ∧ t.isIdent key = true ∧ next us = some x := by
  cases ts with
  | nil => cases h
  | cons t us =>
    obtain ⟨ht, hx⟩ := Option.ite_none_right_eq_some.mp h
    exact ⟨t, us, rfl, ht, hx⟩

theorem exists_of_afterPunct {α : Type} {mark : String} {next : List Token → Option α} {x : α}
    (h : afterPunct mark next ts = some x) : ∃ t us, ts = t :: us ∧ t.isPunct mark = true ∧ next us = some x := by
  cases ts with
  | nil => cases h
  | cons t us =>
    obtain ⟨ht, hx⟩ := Option.ite_none_right_eq_some.mp h
    exact ⟨t, us, rfl, ht, hx⟩

/-- A module name is the value of an identifier. -/
theorem exists_of_moduleAt {name : String} (h : name ∈ occurrences moduleAt ts) :
    ∃ t ∈ ts, t.kind = .ident ∧ t.value = name := by
  obtain ⟨us, hus, h⟩ := mem_occurrences.mp h
  obtain ⟨key, vs, rfl, -, h⟩ := exists_of_afterIdent h
  cases vs with
  | nil => cases h
  | cons t vs =>
    obtain ⟨hk, h⟩ := Option.ite_none_right_eq_some.mp h
    obtain ⟨brace, ws, -, -, h⟩ := exists_of_afterPunct h
    exact ⟨t, hus.mem (by simp), hk, Option.some.inj h⟩

/-- A denied operation is the value of an identifier. -/
theorem exists_of_operationAt {op : String} (h : op ∈ occurrences operationAt ts) :
    IsOperation op ∧ ∃ t ∈ ts, t.kind = .ident ∧ t.value = op := by
  obtain ⟨us, hus, h⟩ := mem_occurrences.mp h
  obtain ⟨key, vs, rfl, -, h⟩ := exists_of_afterIdent h
  cases vs with
  | nil => cases h
  | cons t vs =>
    obtain ⟨⟨hk, hop⟩, h⟩ := Option.ite_none_right_eq_some.mp h
    obtain rfl := Option.some.inj h
    exact ⟨hop, t, hus.mem (by simp), hk, rfl⟩

/-- A line limit is the value of a number that is not too long. -/
theorem exists_of_limitAt {n : Nat} (h : n ∈ occurrences limitAt ts) : ∃ t ∈ ts, t.kind = .number ∧
    t.value.length ≤ Statement.longestLimit ∧ Text.decimalValue t.value.toList = n := by
  obtain ⟨us, hus, h⟩ := mem_occurrences.mp h
  obtain ⟨key, vs, rfl, -, h⟩ := exists_of_afterIdent h
  obtain ⟨target, ws, rfl, -, h⟩ := exists_of_afterIdent h
  obtain ⟨op, xs, rfl, -, h⟩ := exists_of_afterPunct h
  cases xs with
  | nil => cases h
  | cons t xs =>
    obtain ⟨⟨hk, hlen⟩, h⟩ := Option.ite_none_right_eq_some.mp h
    exact ⟨t, hus.mem (by simp), hk, hlen, Option.some.inj h⟩

end Find

/-! ## Positions -/

/-- A pattern that does not look at positions. -/
def Placeless {α : Type} (pattern : List Token → Option α) : Prop :=
  ∀ ts, pattern (ts.map Token.unplaced) = pattern ts

namespace Placeless

variable {α : Type} {next : List Token → Option α}

theorem afterIdent (h : Placeless next) (key : String) : Placeless (afterIdent key next)
  | [] => rfl
  | t :: ts => by
    have ht : t.unplaced.isIdent key = t.isIdent key := rfl
    simp [Shape.afterIdent, ht, h ts]

theorem afterPunct (h : Placeless next) (mark : String) : Placeless (afterPunct mark next)
  | [] => rfl
  | t :: ts => by
    have ht : t.unplaced.isPunct mark = t.isPunct mark := rfl
    simp [Shape.afterPunct, ht, h ts]

theorem string? : Placeless string?
  | [] => rfl
  | _ :: _ => rfl

theorem limit? : Placeless limit?
  | [] => rfl
  | _ :: _ => rfl

theorem operation? : Placeless operation?
  | [] => rfl
  | _ :: _ => rfl

theorem name? : Placeless name?
  | [] => rfl
  | t :: ts => by
    have hbrace : Placeless (Shape.afterPunct "\x7b" fun _ => some t.value) :=
      Placeless.afterPunct (fun _ => rfl) _
    have ht : t.unplaced.kind = t.kind := rfl
    have hv : t.unplaced.value = t.value := rfl
    simp [Shape.name?, ht, hv, hbrace ts]

theorem run (ts : List Token) : run (ts.map Token.unplaced) = run ts := by
  induction ts with
  | nil => rfl
  | cons t ts ih => rw [List.map_cons, Statement.run_cons, Statement.run_cons, ih]; rfl

end Placeless

/-- Whether a statement's pattern occurs does not depend on positions. -/
theorem Statement.found_map_unplaced (ts : List Token) (s : Statement) :
    s.Found (ts.map Token.unplaced) ↔ s.Found ts := by
  have hlist : ∀ target, Placeless (listAt target) := by
    intro target
    have hrun : Placeless (some ∘ run) := fun ts => congrArg some (Placeless.run ts)
    exact ((hrun.afterPunct _).afterIdent _).afterIdent _
  cases s with
  | moduleName => rw [Found, moduleAt, Placeless.name?.afterIdent, Found, moduleAt]
  | location => rw [Found, locationAt, (Placeless.string?.afterPunct _).afterIdent, Found, locationAt]
  | allowImport => rw [Found, allowAt, Placeless.string?.afterIdent, Found, allowAt]
  | denyImports => rw [Found, hlist, Found]
  | denyExports => rw [Found, hlist, Found]
  | denyOperation => rw [Found, operationAt, Placeless.operation?.afterIdent, Found, operationAt]
  | limitLines =>
    rw [Found, limitAt, ((Placeless.limit?.afterPunct _).afterIdent _).afterIdent, Found, limitAt]
  | markPresentation =>
    cases ts with
    | nil => rfl
    | cons t ts =>
      have hident : ∀ key, t.unplaced.isIdent key = t.isIdent key := fun _ => rfl
      have hpunct : ∀ mark, t.unplaced.isPunct mark = t.isPunct mark := fun _ => rfl
      rw [Found, List.map_cons, markAt_cons_eq_some, Placeless.string?, Placeless.string?.afterPunct, hident, hpunct,
        Found, markAt_cons_eq_some]

theorem Statement.ofTokens_map_unplaced (ts : List Token) :
    Statement.ofTokens (ts.map Token.unplaced) = Statement.ofTokens ts := by
  induction ts with
  | nil => rfl
  | cons t ts ih =>
    have hread : (Statement.read t.unplaced (ts.map Token.unplaced)).statement? = (Statement.read t ts).statement? := by
      refine Option.ext fun s => ?_
      rw [Statement.read_iff, Statement.read_iff, ← List.map_cons, Statement.found_map_unplaced]
    rw [List.map_cons, Statement.ofTokens_cons, Statement.ofTokens_cons, hread, ih]

/-- **A text writes the rule that its wording writes.** -/
theorem Rule.ofText_eq_wording (text : List Char) : Rule.ofText text = Rule.ofTokens (Token.wording text) := by
  rw [Rule.ofText_eq, Rule.ofTokens, Rule.ofTokens, ← Token.map_unplaced_ofText, Statement.ofTokens_map_unplaced]

/-! ## Statements in full -/

/-- `Spelled s ts`: the tokens `ts` are those of the statement `s`, from its first word to its end. -/
inductive Statement.Spelled : Statement → List Token → Prop
  | moduleName {name : String} : Spelled (.moduleName name) [.ident "module", .ident name, .punct "\x7b"]
  | location {path : String} : Spelled (.location path) [.ident "location", .punct ":", .string path]
  | allowImport {pattern : String} : Spelled (.allowImport pattern) [.ident "allow", .string pattern]
  | denyImports {body : List Token} : (∀ t ∈ body, t.kind = .string ∨ t = .punct ",") →
      Spelled (.denyImports ((body.filter (·.kind == .string)).map (·.value)))
        (.ident "deny" :: .ident "imports" :: .punct "[" :: (body ++ [.punct "]"]))
  | denyExports {body : List Token} : (∀ t ∈ body, t.kind = .string ∨ t = .punct ",") →
      Spelled (.denyExports ((body.filter (·.kind == .string)).map (·.value)))
        (.ident "deny" :: .ident "exports" :: .punct "[" :: (body ++ [.punct "]"]))
  | denyOperation {target : String} : IsOperation target →
      Spelled (.denyOperation target) [.ident "deny", .ident target]
  | limitLines {digits : String} : digits.length ≤ longestLimit →
      Spelled (.limitLines (Text.decimalValue digits.toList))
        [.ident "deny", .ident "file.lines", .punct ">", .number digits]
  | annotation {note : String} : note ∈ presentationAnnotations →
      Spelled .markPresentation [.punct "@", .string note]
  | type : Spelled .markPresentation [.ident "type", .punct ":", .string Role.presentation.name]

/-- A run of strings and commas ends at a closing bracket. -/
theorem run_append {body : List Token} (h : ∀ t ∈ body, t.kind = .string ∨ t = .punct ",") (more : List Token) :
    run (body ++ .punct "]" :: more) = (body.filter (·.kind == .string)).map (·.value) := by
  induction body with
  | nil => simp [Statement.run_cons]
  | cons t body ih =>
    obtain ⟨ht, hbody⟩ := List.forall_mem_cons.mp h
    rw [List.cons_append, Statement.run_cons, ih hbody]
    rcases ht with hk | rfl
    · simp [hk]
    · simp

/-- The pattern of a statement occurs where the statement stands, whatever follows. -/
theorem Statement.Spelled.found {s : Statement} {ts : List Token} (h : s.Spelled ts) (more : List Token) :
    s.Found (ts ++ more) := by
  cases h with
  | moduleName => simp [Found, name?, afterPunct]
  | location => simp [Found, afterPunct, string?]
  | allowImport => simp [Found, string?]
  | denyImports hbody => simp [Found, afterIdent, afterPunct, run_append hbody]
  | denyExports hbody => simp [Found, afterIdent, afterPunct, run_append hbody]
  | denyOperation hop => simp [Found, operation?, hop]
  | limitLines hlen => simp [Found, afterIdent, afterPunct, limit?, hlen]
  | annotation hnote => simp [Found, string?, hnote]
  | type => simp [Found, afterPunct, string?]

end Conformance
