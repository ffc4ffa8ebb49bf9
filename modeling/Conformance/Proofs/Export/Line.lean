import Conformance.Check.Exports
import Conformance.Proofs.Pattern.Word

/-!
# Lines with exported declarations

Source texts made of lines that export a declaration and of other lines (`Line`). `joined` writes such a text, and
`entries` says what it exports.

At the start of a line that exports a declaration the pattern matches the line up to the name, which it marks, whatever
follows the name (`Declaration.matchAt?_declaration`). Elsewhere in a line, and at the start of the other lines, it
matches nothing.
-/

namespace Conformance.Export

open Pattern Text

/-! ## Lines -/

/-- The characters of an indentation. -/
def isIndent (c : Char) : Bool := c == ' ' || c == '\t'

/-- The characters between the keyword of a declaration and the name. -/
def isGap (c : Char) : Bool := isBlank c || c == '*'

/-- The keywords of declarations. -/
def keywords : List String := ["const", "let", "var", "class", "function"]

/-- A line that exports a declaration. -/
structure Declaration where
  indent : List Char
  isDefault : Bool
  isAsync : Bool
  keyword : String
  /-- The white space before the name, with the star of a generator. -/
  gap : List Char
  name : List Char
  /-- What stands behind the name. -/
  rest : List Char
  isIndent_indent : ∀ c ∈ indent, isIndent c = true
  keyword_mem : keyword ∈ keywords
  gap_ne_nil : gap ≠ []
  isGap_gap : ∀ c ∈ gap, isGap c = true
  oneLine_gap : '\n' ∉ gap
  name_ne_nil : name ≠ []
  isWord_name : ∀ c ∈ name, isWord c = true
  stopsWord_rest : StopsWord rest
  oneLine_rest : '\n' ∉ rest

/-- A line that does not begin with `export`. -/
structure Filler where
  chars : List Char
  oneLine : '\n' ∉ chars
  noExport : ¬ "export".toList <+: chars.dropWhile isIndent

inductive Line where
  | filler (line : Filler)
  | declaration (line : Declaration)

namespace Declaration

variable (d : Declaration)

/-- The words before the gap. -/
def words : List Char := wordIf "default" d.isDefault ++ (wordIf "async" d.isAsync ++ d.keyword.toList)

/-- What stands before the name. -/
def head : List Char := d.indent ++ (("export".toList ++ [' ']) ++ (d.words ++ d.gap))

def text : List Char := d.head ++ d.name ++ d.rest

/-- The match of the declaration in a line that begins at the offset. -/
def matchFrom (offset : Nat) : Match := ⟨⟨offset, d.head ++ d.name⟩, some ⟨offset + d.head.length, d.name⟩⟩

end Declaration

namespace Line

def text : Line → List Char
  | filler line => line.chars
  | declaration line => line.text

/-- The name that is exported. -/
def name? : Line → Option String
  | filler _ => none
  | declaration line => some (String.ofList line.name)

end Line

/-- The text of some lines. -/
def joined (lines : List Line) : List Char := ['\n'].intercalate (lines.map Line.text)

/-- What lines export, if the first of them has the given number: each name, with the number of its line. -/
def entries : Nat → List Line → List (String × Nat)
  | _, [] => []
  | number, l :: lines => (l.name?.map (·, number)).toList ++ entries (number + 1) lines

/-- The exports that are found in a text, each with its line. -/
def listing (content : List Char) : List (String × Nat) :=
  (all content).map fun e => (e.name, lineAt content e.offset)

/-! ## How a declaration is read -/

section Find

variable {α : Type} {k : Cursor → Option α} {a : α} {c : Cursor} {ps : List Pattern} {xs : List Char} (d : Declaration)

theorem prefixFree_keywords : PrefixFree keywords := by decide

/-- No keyword begins with white space, or as the words that may stand before it do. -/
theorem first_of_mem_keywords {keyword : String} (h : keyword ∈ keywords) (xs : List Char) :
    ∀ y ∈ (keyword.toList ++ xs).head?, isBlank y = false ∧ y ≠ 'd' ∧ y ≠ 'a' := by
  intro y hy
  have hall : keywords.all (fun w => w.toList.head?.any fun y => !isBlank y && y != 'd' && y != 'a') = true := by decide
  have hfirst := List.all_eq_true.mp hall keyword h
  cases hkeyword : keyword.toList with
  | nil =>
    rw [hkeyword] at hfirst
    cases hfirst
  | cons x w =>
    rw [hkeyword] at hy hfirst
    obtain rfl := Option.some.inj hy
    simpa [and_assoc] using hfirst

theorem Declaration.notMem_words : '\n' ∉ d.words := by
  have hall : keywords.all (!·.toList.contains '\n') = true := by decide
  have hkeyword := List.all_eq_true.mp hall d.keyword d.keyword_mem
  have hdefault : '\n' ∉ wordIf "default" d.isDefault := by cases d.isDefault <;> decide
  have hasync : '\n' ∉ wordIf "async" d.isAsync := by cases d.isAsync <;> decide
  simp only [words, List.mem_append, not_or]
  exact ⟨hdefault, hasync, by simpa using hkeyword⟩

/-- The words before the gap are matched as a whole. -/
theorem find_words (h : c.rest = d.words ++ xs) (hk : (inOrder ps).find k (c.past d.words) = some a) :
    (inOrder (optionalWord "default" :: optionalWord "async" :: oneOf (keywords.map Pattern.text) :: ps)).find k c =
      some a := by
  unfold Declaration.words at h hk
  rw [List.append_assoc, List.append_assoc] at h
  rw [Cursor.past_append, Cursor.past_append] at hk
  have hkeyword := first_of_mem_keywords d.keyword_mem xs
  have hasync : ∀ y ∈ (wordIf "async" d.isAsync ++ (d.keyword.toList ++ xs)).head?, isBlank y = false ∧ y ≠ 'd' :=
    forall_head?_wordIf rfl (by decide) fun y hy => ⟨(hkeyword y hy).1, (hkeyword y hy).2.1⟩
  have hafter := Cursor.rest_past h
  rw [find_inOrder_cons]
  refine find_optionalWord h (fun y hy => (hasync y hy).1) ?_ ?_
  · intro y hy hd
    exact (hasync y hy).2 (Option.some.inj hd).symm
  · rw [find_inOrder_cons]
    refine find_optionalWord hafter (fun y hy => (hkeyword y hy).1) ?_ ?_
    · intro y hy ha
      exact (hkeyword y hy).2.2 (Option.some.inj ha).symm
    · rw [find_inOrder_cons]
      exact find_oneOf_text prefixFree_keywords d.keyword_mem (Cursor.rest_past hafter) hk

theorem isWord_of_isGap {x : Char} (hx : isGap x = true) : isWord x = false := by
  rw [isGap, Bool.or_eq_true, beq_iff_eq] at hx
  rcases hx with hblank | rfl
  · exact isWord_of_isBlank hblank
  · decide

/-- The name is matched as a whole and marked. -/
theorem find_gap_name (h : c.rest = d.gap ++ (d.name ++ xs)) (hxs : StopsWord xs)
    (hk : k (((c.past d.gap).past d.name).marking ⟨(c.past d.gap).offset, d.name⟩) = some a) :
    (inOrder [greedily 1 isGap, declaredName]).find k c = some a := by
  have hname : ∀ x ∈ (d.name ++ xs).head?, isGap x = false := by
    intro x hx
    rw [List.head?_append_of_ne_nil _ d.name_ne_nil] at hx
    have hword := d.isWord_name x (List.mem_of_mem_head? hx)
    by_contra hgap
    rw [isWord_of_isGap (Bool.not_eq_false _ ▸ hgap)] at hword
    cases hword
  have hopens : ∀ x, isGap x = true → ¬ (inOrder [declaredName]).OpensWith x := by
    intro x hx
    simp [declaredName, OpensWith, isNullable, isWord_of_isGap hx]
  have hrest := Cursor.rest_past h
  have hmarked : (c.past d.gap).upTo ((c.past d.gap).past d.name) = ⟨(c.past d.gap).offset, d.name⟩ :=
    (Cursor.reaches_past hrest).upTo_eq
  rw [find_greedily_inOrder h d.isGap_gap hname (List.length_pos_iff.mpr d.gap_ne_nil) rfl hopens, find_inOrder_cons,
    declaredName, find_mark]
  apply find_greedily hrest d.isWord_name hxs (List.length_pos_iff.mpr d.name_ne_nil)
  rw [hmarked]
  exact hk

/-- **A declaration is read** up to the name, which is marked. -/
theorem find_declaration (hstart : atLineStart c = true) (h : c.rest = d.head ++ (d.name ++ xs)) (hxs : StopsWord xs)
    (hk : k ((c.past (d.head ++ d.name)).marking ⟨c.offset + d.head.length, d.name⟩) = some a) :
    declaration.find k c = some a := by
  have hindent : c.rest = d.indent ++ ("export".toList ++ ' ' :: (d.words ++ (d.gap ++ (d.name ++ xs)))) := by
    rw [h]
    simp only [Declaration.head, List.append_assoc, List.cons_append, List.nil_append]
  have hexport := Cursor.rest_past hindent
  have hwords : ((c.past d.indent).past ("export".toList ++ [' '])).rest = d.words ++ (d.gap ++ (d.name ++ xs)) :=
    Cursor.rest_past (by simpa using hexport)
  have hgap := Cursor.rest_past hwords
  have hhead : (((c.past d.indent).past ("export".toList ++ [' '])).past d.words).past d.gap = c.past d.head := by
    simp only [← Cursor.past_append, Declaration.head, List.append_assoc]
  have hletter : ∀ x ∈ ("export".toList ++ ' ' :: (d.words ++ (d.gap ++ (d.name ++ xs)))).head?, isIndent x = false := by
    intro x hx
    obtain rfl : 'e' = x := Option.some.inj hx
    decide
  have hfirst : ∀ x ∈ (d.words ++ (d.gap ++ (d.name ++ xs))).head?, isBlank x = false := by
    rw [Declaration.words, List.append_assoc, List.append_assoc]
    refine forall_head?_wordIf rfl (by decide) (forall_head?_wordIf rfl (by decide) ?_)
    exact fun y hy => (first_of_mem_keywords d.keyword_mem _ y hy).1
  have hopens : ∀ x, isIndent x = true → ∀ ps, ¬ (inOrder (Pattern.text "export" :: ps)).OpensWith x := by
    intro x hx ps hopens
    obtain rfl : 'e' = x := by simpa [isNullable] using hopens
    exact absurd hx (by decide)
  unfold declaration
  rw [find_inOrder_cons, find, if_pos hstart]
  show (inOrder (greedily 0 isIndent :: Pattern.text "export" :: blanks 1 :: _)).find k c = some a
  rw [find_greedily_inOrder hindent d.isIndent_indent hletter (Nat.zero_le _) rfl (fun x hx => hopens x hx _),
    find_word hexport hfirst]
  refine find_words d hwords ?_
  refine find_gap_name d hgap hxs ?_
  rw [hhead, ← Cursor.past_append]
  exact hk

end Find

/-- **A declaration is found** at the start of its line, whatever stands behind the name. -/
theorem Declaration.matchAt?_declaration (d : Declaration) {c : Cursor} {xs : List Char}
    (hstart : atLineStart c = true) (h : c.rest = d.head ++ (d.name ++ xs)) (hxs : StopsWord xs) :
    Export.declaration.matchAt? c = some (d.matchFrom c.offset) := by
  have hwhole : c.upTo (c.past (d.head ++ d.name)) = ⟨c.offset, d.head ++ d.name⟩ :=
    (Cursor.reaches_past (h.trans (List.append_assoc ..).symm)).upTo_eq
  apply find_declaration d hstart h hxs
  rw [Declaration.matchFrom, ← hwhole]
  rfl

/-! ## Where no declaration is found -/

variable {c : Cursor}

/-- What is found stands at the start of a line and begins with `export`. -/
theorem exists_indent_of_matchAt? {m : Match} (h : declaration.matchAt? c = some m) :
    atLineStart c = true ∧
      ∃ indent, (∀ x ∈ indent, isIndent x = true) ∧ indent ++ "export".toList <+: c.rest := by
  constructor
  · by_contra hstart
    unfold declaration at h
    rw [matchAt?, find_inOrder_cons, find, if_neg hstart] at h
    cases h
  · obtain ⟨t, rest, hrest, -, ht⟩ := exists_fitting_of_matchAt? h
    unfold declaration at ht
    obtain ⟨_, _, rfl, rfl, indent, _, rfl, ⟨-, hindent⟩, _, v, rfl, hexport, -⟩ := ht
    rw [fits_text.mp hexport] at hrest
    refine ⟨indent, ?_, v ++ rest, ?_⟩
    · intro x hx
      obtain ⟨xs, hpasses⟩ := hindent x hx
      exact hpasses
    · rw [hrest]
      simp only [List.append_assoc, List.nil_append]

theorem matchAt?_eq_none_within_line (h : atLineStart c = false) : declaration.matchAt? c = none := by
  cases hm : declaration.matchAt? c with
  | none => rfl
  | some m =>
    rw [(exists_indent_of_matchAt? hm).1] at h
    cases h

/-- Nothing is found at the start of a line that does not begin with `export`. -/
theorem matchAt?_eq_none_of_line (line after : List Char) (hline : ¬ "export".toList <+: line.dropWhile isIndent)
    (hafter : ∀ x ∈ after.head?, x = '\n') (hc : c.rest = line ++ after) : declaration.matchAt? c = none := by
  cases hm : declaration.matchAt? c with
  | none => rfl
  | some m =>
    obtain ⟨-, indent, hindent, hprefix⟩ := exists_indent_of_matchAt? hm
    have hlineFeed : '\n' ∉ indent ++ "export".toList := by
      rw [List.mem_append, not_or]
      exact ⟨fun hmem => absurd (hindent '\n' hmem) (by decide), by decide⟩
    rw [hc] at hprefix
    obtain ⟨rest, hrest⟩ := prefix_of_prefix_append hlineFeed hafter hprefix
    rw [← hrest, List.append_assoc, List.dropWhile_append_of_pos hindent] at hline
    exact absurd (List.prefix_append "export".toList rest) hline

end Conformance.Export
