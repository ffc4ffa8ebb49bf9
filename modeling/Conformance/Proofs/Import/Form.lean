import Conformance.Check.Imports
import Conformance.Proofs.Text.Word
import Mathlib.Data.List.Basic

/-!
# Forms of import statements

Source texts with import statements of all forms: those that begin with `import` and re-exports, which begin with
`export` (`Form`), each on lines of its own, and other lines between them (`Item`). `source` writes such a text, and
`entries` says what it imports.

Between its keyword and its path a statement is made of words and of characters between words, and no word of it is a
keyword (`Form.avoids_body`). A clause is made of the characters that clauses may have
(`Clause.isClauseChar_of_mem`), and no white space stands at its two ends.
-/

namespace Conformance.Import

open Text

/-! ## Names and paths -/

/-- The characters of names. -/
def isNameChar (c : Char) : Bool := c.isAlphanum || c == '_'

/-- The words of import statements, which are no names. -/
def reserved : List (List Char) := ["import", "export", "from", "type", "as"].map String.toList

/-- What is imported, or the name that it is given. -/
structure Name where
  chars : List Char
  ne_nil : chars ≠ []
  plain : ∀ c ∈ chars, isNameChar c = true
  not_reserved : chars ∉ reserved

/-- The path of a module. -/
structure ModulePath where
  chars : List Char
  ne_nil : chars ≠ []
  plain : ∀ c ∈ chars, isQuote c = false ∧ isBlank c = false

/-- White space of any kind, or none: also the ends of lines and the indentation of the next. -/
structure Space where
  chars : List Char
  blank : ∀ c ∈ chars, isBlank c = true

/-! ## Statements -/

/-- Another name, behind `as`. -/
def asName : Option Name → List Char
  | none => []
  | some name => ' ' :: ("as".toList ++ ' ' :: name.chars)

/-- A name between braces, with the white space around it. -/
structure Specifier where
  before : Space
  name : Name
  alias? : Option Name
  behind : Space

/-- Names between braces, with commas between them and possibly one behind the last. -/
structure Names where
  specifiers : List Specifier
  lastComma? : Option Space

/-- What stands between `import` and `from`. -/
inductive Clause where
  /-- The default export, under a name. -/
  | whole (name : Name)
  /-- All exports, as the members of one name. -/
  | members (name : Name)
  /-- Some exports. -/
  | named (names : Names)
  /-- The default export and some others. -/
  | wholeAndNamed (name : Name) (names : Names)

inductive Form where
  /-- The module is imported for what it does. -/
  | bare
  | clause (typeOnly : Bool) (clause : Clause)
  /-- All exports of the module are exported, possibly as the members of one name. -/
  | reexportAll (alias? : Option Name)
  /-- Some exports of the module are exported. -/
  | reexportNamed (names : Names)

/-- An import statement or a re-export. -/
structure Declaration where
  form : Form
  quote : Char
  isQuote_quote : isQuote quote = true
  path : ModulePath
  semicolon : Bool

/-- A line of other text. -/
structure Filler where
  chars : List Char
  oneLine : '\n' ∉ chars
  noImport : occurs "import".toList chars = false
  noExport : occurs "export".toList chars = false

inductive Item where
  | filler (line : Filler)
  | declaration (statement : Declaration)

/-! ## Texts -/

def Specifier.text (s : Specifier) : List Char :=
  s.before.chars ++ ((s.name.chars ++ asName s.alias?) ++ s.behind.chars)

/-- What stands between the braces. -/
def Names.inner (names : Names) : List Char :=
  [','].intercalate (names.specifiers.map Specifier.text) ++
    match names.lastComma? with
    | none => []
    | some space => ',' :: space.chars

def Names.text (names : Names) : List Char := '\x7b' :: (names.inner ++ ['\x7d'])

def Clause.text : Clause → List Char
  | whole name => name.chars
  | members name => '*' :: asName (some name)
  | named names => names.text
  | wholeAndNamed name names => name.chars ++ ',' :: ' ' :: names.text

/-- The word before the path, and the spaces around it. -/
def fromWord : List Char := ' ' :: ("from".toList ++ [' '])

/-- The word that tells that only types are imported. -/
def typeWord (typeOnly : Bool) : List Char := if typeOnly then "type".toList ++ [' '] else []

/-- The two kinds of statements. -/
inductive Kind where
  | statement
  | reexport
deriving DecidableEq

def Kind.keyword : Kind → String
  | statement => "import"
  | reexport => "export"

namespace Form

def kind : Form → Kind
  | bare | clause _ _ => .statement
  | reexportAll _ | reexportNamed _ => .reexport

/-- What stands between the keyword and the path. -/
def body : Form → List Char
  | bare => []
  | clause typeOnly c => typeWord typeOnly ++ (c.text ++ fromWord)
  | reexportAll alias? => '*' :: (asName alias? ++ fromWord)
  | reexportNamed names => names.text ++ fromWord

/-- What stands before the path. -/
def head (f : Form) : List Char := f.kind.keyword.toList ++ ' ' :: f.body

end Form

namespace Declaration

variable (d : Declaration)

/-- The path between its quotation marks. -/
def quoted : List Char := d.quote :: (d.path.chars ++ [d.quote])

/-- The semicolon, if there is one. -/
def ending : List Char := if d.semicolon then [';'] else []

def text : List Char := d.form.head ++ d.quoted ++ d.ending

end Declaration

namespace Item

def text : Item → List Char
  | filler line => line.chars
  | declaration statement => statement.text

/-- The path that is imported. -/
def path? : Item → Option String
  | filler _ => none
  | declaration statement => some (String.ofList statement.path.chars)

end Item

/-- The text of some items, one after the other on lines of their own. -/
def source (items : List Item) : List Char := ['\n'].intercalate (items.map Item.text)

/-- What items import, if the first of them begins on the given line: each path, with the line on which its statement
begins. -/
def entries : Nat → List Item → List (String × Nat)
  | _, [] => []
  | line, i :: items => (i.path?.map (·, line)).toList ++ entries (line + lineFeeds i.text + 1) items

/-- The imports that are found in a text, each with its line. -/
def listing (content : List Char) : List (String × Nat) :=
  (all content).map fun i => (i.path, lineAt content i.offset)

theorem source_singleton (i : Item) : source [i] = i.text := by simp [source]

theorem source_cons_cons (i j : Item) (items : List Item) :
    source (i :: j :: items) = i.text ++ '\n' :: source (j :: items) := by
  simp [source, List.intercalate_cons_cons]

/-! ## Words of statements -/

theorem isWord_of_isNameChar {c : Char} (h : isNameChar c = true) : isWord c = true := by
  rw [isNameChar, Bool.or_eq_true] at h
  rcases h with h | h
  · have hascii : c.toNat < 128 := by
      have hranges : (decide ('A'.val ≤ c.val ∧ c.val ≤ 'Z'.val) ||
          decide ('a'.val ≤ c.val) && decide (c.val ≤ 'z'.val) ||
          decide ('0'.val ≤ c.val) && decide (c.val ≤ '9'.val)) = true := h
      have hval : c.val.toNat = c.toNat := rfl
      simp [UInt32.le_iff_toNat_le] at hranges
      omega
    simp [isWord, isAlphanumeric, hascii, h]
  · rw [isWord, h, Bool.or_true]

namespace Name

variable (n : Name)

theorem isWord_of_mem : ∀ c ∈ n.chars, isWord c = true := fun c hc => isWord_of_isNameChar (n.plain c hc)

theorem ne_of_reserved {keyword : List Char} (h : keyword ∈ reserved) : n.chars ≠ keyword :=
  fun heq => n.not_reserved (heq ▸ h)

end Name

theorem Space.isWord_of_mem (s : Space) : ∀ c ∈ s.chars, isWord c = false :=
  fun c hc => isWord_of_isBlank (s.blank c hc)

theorem stopsWord_asName (alias? : Option Name) {t : List Char} (ht : StopsWord t) :
    StopsWord (asName alias? ++ t) := by
  cases alias? with
  | none => exact ht
  | some name => exact stopsWord_cons (by decide)

section Avoids

/-- The words that open statements or stand behind `import`. -/
def openers : List (List Char) := ["import", "export", "type"].map String.toList

variable {keyword : List Char} (hkeyword : keyword ∈ openers) {t : List Char}
include hkeyword

/-- A name is none of these words. -/
theorem avoids_name (n : Name) (ht : StopsWord t) (h : Avoids keyword t) : Avoids keyword (n.chars ++ t) := by
  have hall : openers.all (reserved.contains ·) = true := by decide
  have hreserved := List.contains_iff_mem.mp (List.all_eq_true.mp hall keyword hkeyword)
  exact .word n.isWord_of_mem (n.ne_of_reserved hreserved) ht h

/-- Another word of statements. -/
theorem avoids_word {word : String} (hword : word.toList.all isWord = true) (hother : word.toList ∉ openers)
    (ht : StopsWord t) (h : Avoids keyword t) : Avoids keyword (word.toList ++ t) :=
  .word (List.all_eq_true.mp hword) (fun heq => hother (heq ▸ hkeyword)) ht h

theorem avoids_asName (alias? : Option Name) (ht : StopsWord t) (h : Avoids keyword t) :
    Avoids keyword (asName alias? ++ t) := by
  cases alias? with
  | none => exact h
  | some name =>
    have hname : Avoids keyword (' ' :: (name.chars ++ t)) := .gap (by decide) (avoids_name hkeyword name ht h)
    have has : Avoids keyword ("as".toList ++ ' ' :: (name.chars ++ t)) :=
      avoids_word hkeyword (by decide) (by decide) (stopsWord_cons (by decide)) hname
    simpa [asName] using Avoids.gap (by decide) has

theorem avoids_specifier (s : Specifier) (ht : StopsWord t) (h : Avoids keyword t) : Avoids keyword (s.text ++ t) := by
  have hbehind : StopsWord (s.behind.chars ++ t) := ht.append s.behind.isWord_of_mem
  have havoids := avoids_asName hkeyword s.alias? hbehind (.gaps s.behind.isWord_of_mem h)
  have hname := avoids_name hkeyword s.name (stopsWord_asName s.alias? hbehind) havoids
  simpa only [Specifier.text, List.append_assoc] using Avoids.gaps s.before.isWord_of_mem hname

theorem avoids_specifiers (ss : List Specifier) (ht : StopsWord t) (h : Avoids keyword t) :
    Avoids keyword ([','].intercalate (ss.map Specifier.text) ++ t) := by
  induction ss with
  | nil => exact h
  | cons s ss ih =>
    cases ss with
    | nil => simpa using avoids_specifier hkeyword s ht h
    | cons s' ss =>
      have hrest := avoids_specifier hkeyword s (stopsWord_cons (by decide)) (.gap (x := ',') (by decide) ih)
      simpa [List.intercalate_cons_cons] using hrest

theorem avoids_names (names : Names) (h : Avoids keyword t) : Avoids keyword (names.text ++ t) := by
  have hbrace : Avoids keyword ('\x7d' :: t) := .gap (by decide) h
  have hinner : Avoids keyword (names.inner ++ '\x7d' :: t) := by
    rw [Names.inner, List.append_assoc]
    cases names.lastComma? with
    | none => exact avoids_specifiers hkeyword _ (stopsWord_cons (by decide)) hbrace
    | some space =>
      exact avoids_specifiers hkeyword _ (stopsWord_cons (by decide))
        (.gap (by decide) (.gaps space.isWord_of_mem hbrace))
  simpa [Names.text] using Avoids.gap (x := '\x7b') (by decide) hinner

theorem avoids_clause (clause : Clause) (ht : StopsWord t) (h : Avoids keyword t) :
    Avoids keyword (clause.text ++ t) := by
  cases clause with
  | whole name => exact avoids_name hkeyword name ht h
  | members name => exact .gap (by decide) (avoids_asName hkeyword (some name) ht h)
  | named names => exact avoids_names hkeyword names h
  | wholeAndNamed name names =>
    have hnames : Avoids keyword (',' :: ' ' :: (names.text ++ t)) :=
      .gap (by decide) (.gap (by decide) (avoids_names hkeyword names h))
    have hname := avoids_name hkeyword name (stopsWord_cons (by decide)) hnames
    simpa [Clause.text] using hname

theorem avoids_fromWord : Avoids keyword fromWord :=
  .gap (by decide) (avoids_word hkeyword (by decide) (by decide) (stopsWord_cons (by decide)) (.gap (by decide) .nil))

end Avoids

theorem Kind.keyword_mem_openers (κ : Kind) : κ.keyword.toList ∈ openers := by
  cases κ <;> decide

theorem Kind.isWord_of_mem_keyword (κ : Kind) : ∀ c ∈ κ.keyword.toList, isWord c = true := by
  apply List.all_eq_true.mp
  cases κ <;> decide

/-- **No word between the keyword and the path of a statement is a keyword.** -/
theorem Form.avoids_body (f : Form) (κ : Kind) : Avoids κ.keyword.toList f.body := by
  have hkeyword := κ.keyword_mem_openers
  have hfrom := avoids_fromWord hkeyword
  have hstops : StopsWord fromWord := stopsWord_cons (by decide)
  cases f with
  | bare => exact .nil
  | clause typeOnly c =>
    have hclause := avoids_clause hkeyword c hstops hfrom
    cases typeOnly with
    | false => exact hclause
    | true =>
      have hne : "type".toList ≠ κ.keyword.toList := by cases κ <;> decide
      have hspace : Avoids κ.keyword.toList (' ' :: (c.text ++ fromWord)) := .gap (by decide) hclause
      exact .word (w := "type".toList) (List.all_eq_true.mp (by decide)) hne (stopsWord_cons (by decide)) hspace
  | reexportAll alias? => exact .gap (by decide) (avoids_asName hkeyword alias? hstops hfrom)
  | reexportNamed names => exact avoids_names hkeyword names hfrom

/-- A statement of one kind avoids the keyword of the other up to its path. -/
theorem Form.avoids_head (f : Form) {κ : Kind} (hne : f.kind ≠ κ) : Avoids κ.keyword.toList f.head := by
  have hwords : f.kind.keyword.toList ≠ κ.keyword.toList := by
    cases hf : f.kind <;> cases κ <;> first | exact absurd hf hne | decide
  exact .word f.kind.isWord_of_mem_keyword hwords (stopsWord_cons (by decide)) (.gap (by decide) (f.avoids_body κ))

/-! ## Characters of statements -/

theorem isClauseChar_of_isBlank {x : Char} (hx : isBlank x = true) : isClauseChar x = true := by
  simp [isClauseChar, hx]

theorem isClauseChar_of_isWord {x : Char} (hx : isWord x = true) : isClauseChar x = true := by
  simp [isClauseChar, hx]

section Characters

variable {P : Char → Prop} (hword : ∀ x, isWord x = true → P x) (hblank : ∀ x, isBlank x = true → P x)
include hword hblank

theorem forall_mem_asName (alias? : Option Name) : ∀ x ∈ asName alias?, P x := by
  have hspace : P ' ' := hblank ' ' (by decide)
  cases alias? with
  | none => exact List.forall_mem_nil P
  | some name =>
    have has : ∀ x ∈ "as".toList, P x := fun x hx => hword x (List.all_eq_true.mp (by decide) x hx)
    have hname : ∀ x ∈ name.chars, P x := fun x hx => hword x (name.isWord_of_mem x hx)
    simp only [asName, List.forall_mem_cons, List.forall_mem_append]
    exact ⟨hspace, has, hspace, hname⟩

theorem Specifier.forall_mem_text (s : Specifier) : ∀ x ∈ s.text, P x := by
  have hname : ∀ x ∈ s.name.chars, P x := fun x hx => hword x (s.name.isWord_of_mem x hx)
  simp only [Specifier.text, List.forall_mem_append]
  exact ⟨fun x hx => hblank x (s.before.blank x hx), ⟨hname, forall_mem_asName hword hblank s.alias?⟩,
    fun x hx => hblank x (s.behind.blank x hx)⟩

theorem Names.forall_mem_inner (hcomma : P ',') (names : Names) : ∀ x ∈ names.inner, P x := by
  have hspecifiers : ∀ ss : List Specifier, ∀ x ∈ [','].intercalate (ss.map Specifier.text), P x := by
    intro ss
    induction ss with
    | nil => exact List.forall_mem_nil P
    | cons s ss ih =>
      have hs := s.forall_mem_text hword hblank
      cases ss with
      | nil => simpa using hs
      | cons s' ss =>
        simp only [List.map_cons, List.intercalate_cons_cons, List.forall_mem_append, List.forall_mem_singleton]
        exact ⟨⟨hs, hcomma⟩, ih⟩
  rw [Names.inner, List.forall_mem_append]
  refine ⟨hspecifiers _, ?_⟩
  cases names.lastComma? with
  | none => exact List.forall_mem_nil P
  | some space => exact List.forall_mem_cons.mpr ⟨hcomma, fun x hx => hblank x (space.blank x hx)⟩

end Characters

/-- No closing brace stands between the braces. -/
theorem Names.ne_brace (names : Names) : ∀ x ∈ names.inner, x ≠ '\x7d' := by
  have hother : ∀ test : Char → Bool, test '\x7d' = false → ∀ x, test x = true → x ≠ '\x7d' := by
    rintro test hbrace x hx rfl
    rw [hbrace] at hx
    cases hx
  exact names.forall_mem_inner (hother isWord (by decide)) (hother isBlank (by decide)) (by decide)

namespace Clause

variable (clause : Clause)

theorem isClauseChar_of_mem : ∀ x ∈ clause.text, isClauseChar x = true := by
  have hword : ∀ x, isWord x = true → isClauseChar x = true := fun _ => isClauseChar_of_isWord
  have hblank : ∀ x, isBlank x = true → isClauseChar x = true := fun _ => isClauseChar_of_isBlank
  have hname : ∀ name : Name, ∀ x ∈ name.chars, isClauseChar x = true := fun name x hx =>
    hword x (name.isWord_of_mem x hx)
  have hnames : ∀ names : Names, ∀ x ∈ names.text, isClauseChar x = true := by
    intro names
    simp only [Names.text, List.forall_mem_cons, List.forall_mem_append]
    exact ⟨by decide, names.forall_mem_inner hword hblank (by decide), by decide, List.forall_mem_nil _⟩
  cases clause with
  | whole name => exact hname name
  | members name => exact List.forall_mem_cons.mpr ⟨by decide, forall_mem_asName hword hblank (some name)⟩
  | named names => exact hnames names
  | wholeAndNamed name names =>
    simp only [text, List.forall_mem_cons, List.forall_mem_append]
    exact ⟨hname name, by decide, by decide, hnames names⟩

/-- A clause does not begin with white space. -/
theorem exists_first : ∃ y ys, clause.text = y :: ys ∧ isBlank y = false := by
  have hname : ∀ name : Name, ∃ y ys, name.chars = y :: ys ∧ isBlank y = false := by
    intro name
    obtain ⟨y, ys, hchars⟩ := List.exists_cons_of_ne_nil name.ne_nil
    exact ⟨y, ys, hchars, isBlank_of_isWord (name.isWord_of_mem y (hchars ▸ List.mem_cons_self))⟩
  cases clause with
  | whole name => exact hname name
  | members name => exact ⟨_, _, rfl, by decide⟩
  | named names => exact ⟨_, _, rfl, by decide⟩
  | wholeAndNamed name names =>
    obtain ⟨y, ys, hchars, hy⟩ := hname name
    exact ⟨y, ys ++ ',' :: ' ' :: names.text, by rw [text, hchars, List.cons_append], hy⟩

/-- A clause does not end with white space. -/
theorem isBlank_of_mem_getLast? : ∀ z ∈ clause.text.getLast?, isBlank z = false := by
  have hname : ∀ (u : List Char) (name : Name), ∀ z ∈ (u ++ name.chars).getLast?, isBlank z = false := by
    intro u name z hz
    rw [List.getLast?_append_of_ne_nil u name.ne_nil] at hz
    exact isBlank_of_isWord (name.isWord_of_mem z (List.mem_of_getLast? hz))
  have hnames : ∀ (u : List Char) (names : Names), ∀ z ∈ (u ++ names.text).getLast?, isBlank z = false := by
    intro u names z hz
    have hbrace : u ++ names.text = (u ++ '\x7b' :: names.inner) ++ ['\x7d'] := by simp [Names.text]
    rw [hbrace, List.getLast?_concat] at hz
    obtain rfl := Option.some.inj hz
    decide
  cases clause with
  | whole name => exact hname [] name
  | members name => exact hname "* as ".toList name
  | named names => exact hnames [] names
  | wholeAndNamed name names =>
    have hsplit : (wholeAndNamed name names).text = (name.chars ++ [',', ' ']) ++ names.text := by simp [text]
    rw [hsplit]
    exact hnames _ names

end Clause

end Conformance.Import
