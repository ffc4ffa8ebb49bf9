import Mathlib.Algebra.Ring.Nat
import Conformance.Proofs.Rule.Shape

/-!
# Writing rules

`Rule.write` writes a rule, one statement a line. The wording of a written line is that of its statement, whatever the
lines after it are (`wording_line`), so the wording of a written rule is known (`wording_lines`).

A statement has a line if it names an identifier or nothing (`Named`), and its tokens say it if the parser accepts what
it says (`Fits`, `spelled_tokens`).
-/

namespace Conformance

open Token

/-! ## Text -/

/-- A character of a string, escaped if it would end the string or escape something. -/
def Lexeme.escape (c : Char) : List Char :=
  if c = '\n' then ['\\', 'n'] else if c = '"' ∨ c = '\\' then ['\\', c] else [c]

/-- A string in quotes. -/
def Lexeme.quote (value : String) : List Char := '"' :: (value.toList.flatMap escape ++ ['"'])

namespace Statement

/-- A list of patterns in brackets. -/
def writeList (ps : List String) : List Char :=
  '[' :: (List.intercalate [',', ' '] (ps.map Lexeme.quote) ++ [']'])

/-- The line that writes a statement. -/
def line : Statement → List Char
  | .moduleName name => "module".toList ++ ' ' :: (name.toList ++ [' ', '\x7b'])
  | .location path => "location".toList ++ ':' :: ' ' :: Lexeme.quote path
  | .allowImport p => "allow".toList ++ ' ' :: Lexeme.quote p
  | .denyImports ps => "deny".toList ++ ' ' :: ("imports".toList ++ ' ' :: writeList ps)
  | .denyExports ps => "deny".toList ++ ' ' :: ("exports".toList ++ ' ' :: writeList ps)
  | .denyOperation target => "deny".toList ++ ' ' :: target.toList
  | .limitLines most => "deny".toList ++ ' ' :: ("file.lines".toList ++ ' ' :: '>' :: ' ' :: Nat.toDigits 10 most)
  | .markPresentation => "type".toList ++ ':' :: ' ' :: Lexeme.quote Role.presentation.name

end Statement

namespace Rule

/-- The statements that make a rule, but for its denied operations. -/
def settings (r : Rule) : List Statement :=
  (if r.moduleName = "" then [] else [.moduleName r.moduleName]) ++
    [.location r.location] ++
    (if r.role = .presentation then [.markPresentation] else []) ++
    r.allowedImports.map .allowImport ++
    [.denyImports r.deniedImports, .denyExports r.deniedExports] ++
    (r.maxLines.map fun n => .limitLines n.toNat).toList

/-- The statements that make a rule. -/
def statements (r : Rule) : List Statement := r.settings ++ r.deniedOperations.map .denyOperation

/-- The text that writes a rule: a line for each of its statements, and a closing brace. -/
def write (r : Rule) : List Char := r.statements.flatMap (fun s => s.line ++ ['\n']) ++ ['\x7d', '\n']

end Rule

/-! ## Numbers -/

theorem isNumber_toDigits (n : Nat) : Lexeme.IsNumber (Nat.toDigits 10 n) :=
  ⟨Nat.toDigits_ne_nil, fun _ hc => Nat.isDigit_of_mem_toDigits (by omega) (by omega) hc⟩

theorem decimalValue_eq (cs : List Char) : Text.decimalValue cs = Nat.ofDigitChars 10 cs 0 := by
  rw [Text.decimalValue, Text.ofDigits, List.foldl_map, Nat.ofDigitChars_eq_foldl]
  congr 1
  funext n c
  rw [Nat.mul_comm]

/-- The digits of a number write it. -/
theorem decimalValue_toDigits (n : Nat) : Text.decimalValue (Nat.toDigits 10 n) = n := by
  rw [decimalValue_eq, Nat.ofDigitChars_ten_toDigits]

/-- A number with few digits is small. -/
theorem decimalValue_lt {cs : List Char} (h : ∀ c ∈ cs, c.isDigit = true) :
    Text.decimalValue cs < 10 ^ cs.length := by
  have hfold : ∀ n, Nat.ofDigitChars 10 cs n < (n + 1) * 10 ^ cs.length := by
    induction cs with
    | nil => simp
    | cons c cs ih =>
      obtain ⟨hc, hcs⟩ := List.forall_mem_cons.mp h
      have hd : c.toNat ≤ 57 := by
        have hrange : 48 ≤ c.toNat ∧ c.toNat ≤ 57 := by simpa [Char.isDigit, UInt32.le_iff_toNat_le] using hc
        omega
      intro n
      have hstep : 10 * n + (c.toNat - '0'.toNat) + 1 ≤ (n + 1) * 10 := by
        have hzero : '0'.toNat = 48 := rfl
        omega
      calc Nat.ofDigitChars 10 (c :: cs) n
          = Nat.ofDigitChars 10 cs (10 * n + (c.toNat - '0'.toNat)) := Nat.ofDigitChars_cons
        _ < (10 * n + (c.toNat - '0'.toNat) + 1) * 10 ^ cs.length := ih hcs _
        _ ≤ (n + 1) * 10 * 10 ^ cs.length := Nat.mul_le_mul_right _ hstep
        _ = (n + 1) * 10 ^ (c :: cs).length := by rw [List.length_cons, Nat.pow_succ, Nat.mul_assoc, Nat.mul_comm 10]
  simpa [decimalValue_eq] using hfold 0

/-! ## The wording of lines -/

/-- Escaping spells the string that is written. -/
theorem spells_escape (value : List Char) : Lexeme.Spells true (value.flatMap Lexeme.escape) value := by
  induction value with
  | nil => exact .nil
  | cons c value ih =>
    rw [List.flatMap_cons]
    by_cases hn : c = '\n'
    · subst hn
      have hd : 'n' ≠ '\n' := by decide
      exact .escape hd ih
    by_cases hq : c = '"' ∨ c = '\\'
    · have hescape : Lexeme.escape c = ['\\', c] := by simp [Lexeme.escape, hn, hq]
      have hmeaning : Lexeme.meaning c = [c] := by rcases hq with rfl | rfl <;> rfl
      have hspells := Lexeme.Spells.escape hn ih
      rw [hmeaning] at hspells
      rwa [hescape]
    · have hescape : Lexeme.escape c = [c] := by simp [Lexeme.escape, hn, hq]
      obtain ⟨hquote, hback⟩ := not_or.mp hq
      rw [hescape]
      exact .plain hquote hn hback ih

section Lines

variable {rest : List Char}

theorem endsWord_cons {c : Char} (h : Lexeme.isWordChar c = false) : Lexeme.EndsWord (c :: rest) := by
  simpa [Lexeme.EndsWord] using h

theorem wording_quote (value : String) : wording (Lexeme.quote value ++ rest) = string value :: wording rest := by
  rw [Lexeme.quote, List.cons_append, List.append_assoc, List.singleton_append, wording_string (spells_escape _),
    String.ofList_toList]

theorem wording_newline : wording ('\n' :: rest) = wording rest := wording_blank (by decide)

theorem wording_space : wording (' ' :: rest) = wording rest := wording_blank (by decide)

/-- A word before a space. -/
theorem wording_key {key : String} (h : Lexeme.IsWord key.toList) :
    wording (key.toList ++ ' ' :: rest) = ident key :: wording rest := by
  rw [wording_word h (endsWord_cons (by decide)), wording_space, String.ofList_toList]

/-- A word before a colon and a space. -/
theorem wording_label {key : String} (h : Lexeme.IsWord key.toList) :
    wording (key.toList ++ ':' :: ' ' :: rest) = ident key :: punct ":" :: wording rest := by
  have hcolon : Lexeme.isMark ':' = true := by decide
  rw [wording_word h (endsWord_cons (by decide)), wording_mark hcolon, wording_space, String.ofList_toList]

/-- The patterns of a list, parted by commas. -/
theorem wording_patterns (ps : List String) :
    wording (List.intercalate [',', ' '] (ps.map Lexeme.quote) ++ rest) =
      (ps.map string).intersperse (punct ",") ++ wording rest := by
  have hcomma : ∀ rest, wording (',' :: rest) = punct "," :: wording rest := fun _ => wording_mark (by decide)
  induction ps with
  | nil => rfl
  | cons p ps ih =>
    cases ps with
    | nil => simp [List.intercalate, wording_quote]
    | cons q qs =>
      simp only [List.map_cons, List.intercalate_cons_cons, List.append_assoc, List.cons_append, List.nil_append,
        List.intersperse_cons_cons] at ih ⊢
      rw [wording_quote, hcomma, wording_space, ih]

theorem wording_writeList (ps : List String) : wording (Statement.writeList ps ++ rest) =
    punct "[" :: ((ps.map string).intersperse (punct ",") ++ punct "]" :: wording rest) := by
  have hopening : ∀ rest, wording ('[' :: rest) = punct "[" :: wording rest := fun _ => wording_mark (by decide)
  have hclosing : ∀ rest, wording (']' :: rest) = punct "]" :: wording rest := fun _ => wording_mark (by decide)
  rw [Statement.writeList, List.cons_append, List.append_assoc, List.singleton_append, hopening, wording_patterns,
    hclosing]

end Lines

namespace Statement

/-- The tokens that write a statement. -/
def tokens : Statement → List Token
  | .moduleName name => [ident "module", ident name, punct "\x7b"]
  | .location path => [ident "location", punct ":", string path]
  | .allowImport p => [ident "allow", string p]
  | .denyImports ps =>
    ident "deny" :: ident "imports" :: punct "[" :: ((ps.map string).intersperse (punct ",") ++ [punct "]"])
  | .denyExports ps =>
    ident "deny" :: ident "exports" :: punct "[" :: ((ps.map string).intersperse (punct ",") ++ [punct "]"])
  | .denyOperation target => [ident "deny", ident target]
  | .limitLines most => [ident "deny", ident "file.lines", punct ">", number (.ofList (Nat.toDigits 10 most))]
  | .markPresentation => [ident "type", punct ":", string Role.presentation.name]

/-- Whether the name in a statement can be an identifier. -/
def Named : Statement → Prop
  | .moduleName name => Lexeme.IsWord name.toList
  | .denyOperation target => Lexeme.IsWord target.toList
  | _ => True

/-- **The line of a statement is worded by the statement's tokens**, whatever the lines after it are. -/
theorem wording_line {s : Statement} (h : s.Named) {rest : List Char} (hr : Lexeme.EndsLine rest) :
    wording (s.line ++ rest) = s.tokens ++ wording rest := by
  have hdeny : ∀ rest, wording ("deny".toList ++ ' ' :: rest) = ident "deny" :: wording rest :=
    fun _ => wording_key (by decide)
  have hdenial : ∀ (target : String) (ps : List String), Lexeme.IsWord target.toList →
      wording (("deny".toList ++ ' ' :: (target.toList ++ ' ' :: writeList ps)) ++ rest) =
        (ident "deny" :: ident target :: punct "[" :: ((ps.map string).intersperse (punct ",") ++ [punct "]"])) ++
          wording rest := by
    intro target ps htarget
    rw [List.append_assoc, List.cons_append, hdeny, List.append_assoc, List.cons_append, wording_key htarget,
      wording_writeList]
    simp
  cases s with
  | moduleName name =>
    have hkey : Lexeme.IsWord "module".toList := by decide
    have hname : Lexeme.IsWord name.toList := h
    have hbrace : wording ('\x7b' :: rest) = punct "\x7b" :: wording rest := wording_mark (by decide)
    show wording (("module".toList ++ ' ' :: (name.toList ++ [' ', '\x7b'])) ++ rest) = _
    rw [List.append_assoc, List.cons_append, List.append_assoc, List.cons_append, List.singleton_append,
      wording_key hkey, wording_key hname, hbrace]
    rfl
  | location path =>
    have hkey : Lexeme.IsWord "location".toList := by decide
    show wording (("location".toList ++ ':' :: ' ' :: Lexeme.quote path) ++ rest) = _
    rw [List.append_assoc, List.cons_append, List.cons_append, wording_label hkey, wording_quote]
    rfl
  | allowImport p =>
    have hkey : Lexeme.IsWord "allow".toList := by decide
    show wording (("allow".toList ++ ' ' :: Lexeme.quote p) ++ rest) = _
    rw [List.append_assoc, List.cons_append, wording_key hkey, wording_quote]
    rfl
  | denyImports ps => exact hdenial "imports" ps (by decide)
  | denyExports ps => exact hdenial "exports" ps (by decide)
  | denyOperation target =>
    show wording (("deny".toList ++ ' ' :: target.toList) ++ rest) = _
    rw [List.append_assoc, List.cons_append, hdeny, wording_word h hr.endsWord, String.ofList_toList]
    rfl
  | limitLines most =>
    have hkey : Lexeme.IsWord "file.lines".toList := by decide
    have hmore : ∀ rest, wording ('>' :: ' ' :: rest) = punct ">" :: wording rest := by
      intro rest
      rw [wording_mark (by decide), wording_space]
    show wording (("deny".toList ++ ' ' :: ("file.lines".toList ++ ' ' :: '>' :: ' ' :: Nat.toDigits 10 most)) ++
      rest) = _
    rw [List.append_assoc, List.cons_append, hdeny, List.append_assoc, List.cons_append, wording_key hkey,
      List.cons_append, List.cons_append, hmore, wording_number (isNumber_toDigits most) hr.endsWord]
    rfl
  | markPresentation =>
    have hkey : Lexeme.IsWord "type".toList := by decide
    show wording (("type".toList ++ ':' :: ' ' :: Lexeme.quote Role.presentation.name) ++ rest) = _
    rw [List.append_assoc, List.cons_append, List.cons_append, wording_label hkey, wording_quote]
    rfl

theorem wording_lines {ss : List Statement} (h : ∀ s ∈ ss, s.Named) (rest : List Char) :
    wording (ss.flatMap (fun s => s.line ++ ['\n']) ++ rest) = ss.flatMap tokens ++ wording rest := by
  induction ss with
  | nil => rfl
  | cons s ss ih =>
    obtain ⟨hs, hss⟩ := List.forall_mem_cons.mp h
    have hline : ∀ rest, Lexeme.EndsLine ('\n' :: rest) := by simp [Lexeme.EndsLine]
    simp only [List.flatMap_cons, List.append_assoc, List.cons_append, List.nil_append]
    rw [wording_line hs (hline _), wording_newline, ih hss]

/-! ## What tokens say -/

/-- Whether a statement says something that its tokens can say. -/
def Fits : Statement → Prop
  | .denyOperation target => Shape.IsOperation target
  | .limitLines most => most < 10 ^ longestLimit
  | _ => True

/-- Patterns and the commas between them are the body of a list, and the patterns are its values. -/
theorem body_patterns (ps : List String) :
    (∀ t ∈ (ps.map string).intersperse (punct ","), t.kind = .string ∨ t = punct ",") ∧
      (((ps.map string).intersperse (punct ",")).filter (·.kind == .string)).map (·.value) = ps := by
  induction ps with
  | nil => simp
  | cons p ps ih =>
    obtain ⟨hbody, hvalues⟩ := ih
    cases ps with
    | nil => simp
    | cons q qs =>
      have hsplit : ((p :: q :: qs).map string).intersperse (punct ",") =
          string p :: punct "," :: ((q :: qs).map string).intersperse (punct ",") := rfl
      rw [hsplit]
      refine ⟨List.forall_mem_cons.mpr ⟨.inl rfl, List.forall_mem_cons.mpr ⟨.inr rfl, hbody⟩⟩, ?_⟩
      rw [List.filter_cons_of_pos (by simp), List.filter_cons_of_neg (by simp), List.map_cons, hvalues]
      rfl

theorem spelled_tokens {s : Statement} (h : s.Fits) : s.Spelled s.tokens := by
  cases s with
  | moduleName => exact .moduleName
  | location => exact .location
  | allowImport => exact .allowImport
  | denyImports ps =>
    obtain ⟨hbody, hvalues⟩ := body_patterns ps
    have hspelled := Spelled.denyImports hbody
    rwa [hvalues] at hspelled
  | denyExports ps =>
    obtain ⟨hbody, hvalues⟩ := body_patterns ps
    have hspelled := Spelled.denyExports hbody
    rwa [hvalues] at hspelled
  | denyOperation => exact .denyOperation h
  | limitLines most =>
    have hlen : (String.ofList (Nat.toDigits 10 most)).length ≤ longestLimit := by
      rw [String.length_ofList]
      exact (Nat.length_toDigits_le_iff (by omega) (by decide)).mpr h
    have hspelled := Spelled.limitLines hlen
    rwa [String.toList_ofList, decimalValue_toDigits] at hspelled
  | markPresentation => exact .type

end Statement

end Conformance
