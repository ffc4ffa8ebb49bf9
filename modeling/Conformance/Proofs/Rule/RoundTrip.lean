import Mathlib.Algebra.Ring.Int.Defs
import Conformance.Proofs.Rule.Scan
import Conformance.Proofs.Rule.Writing

/-!
# Reading what is written

Reading what `Rule.write` writes gives the rule back. The rules that can be written are exactly those that reading gives
(`Writable`); hence reading, writing and reading again changes nothing (`write_roundTrip`).

The tokens of a written rule are read one by one. Each statement is read at its first token, and no other token says
anything (`ofTokens_tokens`) — but for an operation `deny`, which the denial on the next line makes a second denial of
the same operation (`foldl_denials`). The statements that are read make the rule (`foldl_statements`).
-/

namespace Conformance

open Token

/-! ## Reading the tokens of statements -/

/-- A token that says nothing, whatever follows it. -/
def Silent (t : Token) : Prop := ∀ ts, (Statement.read t ts).statement? = none

theorem silent_string (value : String) : Silent (string value) := fun ts => by simp [Statement.read]

theorem silent_number (value : String) : Silent (number value) := fun ts => by simp [Statement.read]

theorem silent_punct {mark : String} (h : mark ≠ "@") : Silent (punct mark) := fun ts => by simp [Statement.read, h]

theorem silent_ident {word : String} (h : word ∉ ["module", "location", "type", "allow", "deny"]) :
    Silent (ident word) := by
  intro ts
  simp only [List.mem_cons, List.not_mem_nil, or_false, not_or] at h
  simp [Statement.read, h]

theorem ofTokens_cons_of_none {t : Token} {ts : List Token} (h : (Statement.read t ts).statement? = none) :
    Statement.ofTokens (t :: ts) = Statement.ofTokens ts := by
  rw [Statement.ofTokens_cons, h]; rfl

theorem ofTokens_append_of_silent {ts : List Token} (h : ∀ t ∈ ts, Silent t) (more : List Token) :
    Statement.ofTokens (ts ++ more) = Statement.ofTokens more := by
  induction ts with
  | nil => rfl
  | cons t ts ih =>
    obtain ⟨ht, hts⟩ := List.forall_mem_cons.mp h
    rw [List.cons_append, ofTokens_cons_of_none (ht _), ih hts]

theorem ofTokens_cons_of_found {t : Token} {ts : List Token} {s : Statement} (h : s.Found (t :: ts)) :
    Statement.ofTokens (t :: ts) = s :: Statement.ofTokens ts := by
  rw [Statement.ofTokens_cons, Statement.read_iff.mpr h]; rfl

theorem read_eq_none {t : Token} {ts : List Token} (h : ∀ s : Statement, ¬ s.Found (t :: ts)) :
    (Statement.read t ts).statement? = none :=
  Option.eq_none_iff_forall_ne_some.mpr fun s hs => h s (Statement.read_iff.mp hs)

/-- A module name says nothing, be it a word that starts statements elsewhere. -/
theorem read_before_brace (name : String) (ts : List Token) :
    (Statement.read (ident name) (punct "\x7b" :: ts)).statement? = none := by
  refine read_eq_none fun s => ?_
  cases s <;> simp [Statement.Found, Shape.name?, Shape.afterPunct, Shape.afterIdent, Shape.string?, Shape.operation?]

namespace Statement

/-- A statement is read at its first token if the others are silent. -/
theorem ofTokens_of_found {t : Token} {ts more : List Token} {s : Statement} (h : s.Found (t :: ts ++ more))
    (hts : ∀ t ∈ ts, Silent t) : ofTokens (t :: ts ++ more) = s :: ofTokens more := by
  have hfirst := ofTokens_cons_of_found h
  rw [List.append_eq, ofTokens_append_of_silent hts] at hfirst
  exact hfirst

/-- **The tokens of a statement are read as that statement and nothing else**, unless an operation is denied. -/
theorem ofTokens_tokens {s : Statement} (h : s.Fits) (hop : ∀ target, s ≠ .denyOperation target) (more : List Token) :
    ofTokens (s.tokens ++ more) = s :: ofTokens more := by
  have hfound := (spelled_tokens h).found more
  have hcolon : Silent (punct ":") := silent_punct (by decide)
  have hlist : ∀ (target : String) (ps : List String), Silent (ident target) →
      ∀ t ∈ ident target :: punct "[" :: ((ps.map string).intersperse (punct ",") ++ [punct "]"]), Silent t := by
    intro target ps htarget t ht
    simp only [List.mem_cons, List.mem_append, List.not_mem_nil, or_false] at ht
    rcases ht with rfl | rfl | ht | rfl
    · exact htarget
    · exact silent_punct (by decide)
    · rcases (body_patterns ps).1 t ht with hk | rfl
      · exact fun ts => by simp [read, isIdent, isPunct, hk]
      · exact silent_punct (by decide)
    · exact silent_punct (by decide)
  cases s with
  | moduleName name =>
    have hbrace : ofTokens (punct "\x7b" :: more) = ofTokens more := ofTokens_cons_of_none (silent_punct (by decide) _)
    have hname : ofTokens (ident name :: punct "\x7b" :: more) = ofTokens more := by
      rw [ofTokens_cons_of_none (read_before_brace name more), hbrace]
    exact (ofTokens_cons_of_found hfound).trans (congrArg _ hname)
  | location path => exact ofTokens_of_found hfound (by simp [hcolon, silent_string])
  | allowImport p => exact ofTokens_of_found hfound (by simp [silent_string])
  | denyImports ps => exact ofTokens_of_found hfound (hlist "imports" ps (silent_ident (by decide)))
  | denyExports ps => exact ofTokens_of_found hfound (hlist "exports" ps (silent_ident (by decide)))
  | denyOperation target => exact absurd rfl (hop target)
  | limitLines most =>
    have hfile : Silent (ident "file.lines") := silent_ident (by decide)
    have hmore : Silent (punct ">") := silent_punct (by decide)
    exact ofTokens_of_found hfound (by simp [hfile, hmore, silent_number])
  | markPresentation => exact ofTokens_of_found hfound (by simp [hcolon, silent_string])

theorem ofTokens_flatMap_tokens {ss : List Statement} (h : ∀ s ∈ ss, s.Fits)
    (hop : ∀ target, .denyOperation target ∉ ss) (more : List Token) :
    ofTokens (ss.flatMap tokens ++ more) = ss ++ ofTokens more := by
  induction ss with
  | nil => rfl
  | cons s ss ih =>
    obtain ⟨hs, hss⟩ := List.forall_mem_cons.mp h
    have hne : ∀ target, s ≠ .denyOperation target := fun target heq => hop target (by simp [heq])
    have hnotin : ∀ target, .denyOperation target ∉ ss := fun target hmem => hop target (List.mem_cons_of_mem _ hmem)
    rw [List.flatMap_cons, List.append_assoc, ofTokens_tokens hs hne, ih hss hnotin, List.cons_append]

/-- What a denied operation says when the next line denies another one or the rule ends: nothing, or the same denial
once more. -/
theorem eq_of_read_operation {op : String} {ops : List String} {s : Statement}
    (h : (read (ident op) (ops.flatMap (fun op => (denyOperation op).tokens) ++ [punct "\x7d"])).statement? = some s) :
    s = .denyOperation op := by
  rw [read_iff] at h
  cases ops with
  | nil =>
    cases s <;> simp [Found, Shape.name?, Shape.afterPunct, Shape.afterIdent, Shape.string?, Shape.operation?] at h
  | cons op' ops =>
    cases s <;>
      simp_all [Found, tokens, Shape.name?, Shape.afterPunct, Shape.afterIdent, Shape.string?, Shape.operation?]

/-- **Denials in a row are read as they stand**: a second reading of an operation adds nothing. -/
theorem foldl_denials {ops : List String} (h : ∀ op ∈ ops, Shape.IsOperation op) (r : Rule) :
    (ofTokens (ops.flatMap (fun op => (denyOperation op).tokens) ++ [punct "\x7d"])).foldl Rule.add r =
      (ops.map .denyOperation).foldl Rule.add r := by
  have htwice : ∀ (r : Rule) op, (r.add (.denyOperation op)).add (.denyOperation op) = r.add (.denyOperation op) := by
    intro r op
    by_cases hmem : op ∈ r.deniedOperations <;> simp [Rule.add, insertNew, hmem]
  induction ops generalizing r with
  | nil =>
    have hclosing : ofTokens [punct "\x7d"] = [] := ofTokens_cons_of_none (silent_punct (by decide) _)
    simp [hclosing]
  | cons op ops ih =>
    obtain ⟨hop, hops⟩ := List.forall_mem_cons.mp h
    have hfound : ∀ more, (denyOperation op).Found (ident "deny" :: ident op :: more) :=
      fun more => (Spelled.denyOperation hop).found more
    have htokens : (op :: ops).flatMap (fun op => (denyOperation op).tokens) ++ [punct "\x7d"] =
        ident "deny" :: ident op :: (ops.flatMap (fun op => (denyOperation op).tokens) ++ [punct "\x7d"]) := rfl
    rw [htokens, ofTokens_cons_of_found (hfound _), ofTokens_cons, List.foldl_cons, List.foldl_append, List.map_cons,
      List.foldl_cons]
    cases hread :
      (read (ident op) (ops.flatMap (fun op => (denyOperation op).tokens) ++ [punct "\x7d"])).statement? with
    | none => exact ih hops _
    | some s =>
      rw [eq_of_read_operation hread, Option.toList_some, List.foldl_cons, List.foldl_nil, htwice]
      exact ih hops _

end Statement

/-! ## Making the rule -/

theorem eraseDups_of_nodup {xs : List String} (h : xs.Nodup) : xs.eraseDups = xs := by
  induction xs with
  | nil => rfl
  | cons x xs ih =>
    obtain ⟨hx, hxs⟩ := List.nodup_cons.mp h
    have hfilter : xs.filter (fun b => !b == x) = xs :=
      List.filter_eq_self.mpr fun y hy => by simpa using fun heq : y = x => hx (heq ▸ hy)
    rw [List.eraseDups_cons, hfilter, ih hxs]

theorem nodup_eraseDups (xs : List String) : xs.eraseDups.Nodup := by
  have hinsert : ∀ (xs acc : List String), acc.Nodup → (xs.foldl insertNew acc).Nodup := by
    intro xs
    induction xs with
    | nil => exact fun acc h => h
    | cons x xs ih =>
      intro acc h
      refine ih _ ?_
      by_cases hx : x ∈ acc
      · simpa [insertNew, hx] using h
      · simpa [insertNew, hx, List.nodup_append] using ⟨h, fun y hy heq => hx (heq ▸ hy)⟩
  rw [← foldl_insertNew_nil]
  exact hinsert xs [] List.nodup_nil

namespace Rule

theorem foldl_allowImport (ps : List String) (r : Rule) : (ps.map .allowImport).foldl add r =
    { r with allowedImports := ps.foldl insertNew r.allowedImports } := by
  induction ps generalizing r with
  | nil => rfl
  | cons p ps ih => rw [List.map_cons, List.foldl_cons, ih]; rfl

theorem foldl_denyOperation (ops : List String) (r : Rule) : (ops.map .denyOperation).foldl add r =
    { r with deniedOperations := ops.foldl insertNew r.deniedOperations } := by
  induction ops generalizing r with
  | nil => rfl
  | cons op ops ih => rw [List.map_cons, List.foldl_cons, ih]; rfl

/-- The rules that can be written. -/
structure Writable (r : Rule) : Prop where
  moduleName : r.moduleName = "" ∨ IsIdentValue r.moduleName
  allowedImports : r.allowedImports.Nodup
  deniedImports : r.deniedImports.Nodup
  deniedOperations : r.deniedOperations.Nodup
  deniedExports : r.deniedExports.Nodup
  operation : ∀ op ∈ r.deniedOperations, IsIdentValue op ∧ Shape.IsOperation op
  maxLines : ∀ n ∈ r.maxLines, 0 ≤ n ∧ n < 10 ^ 18
  role : r.role = .presentation ∨ r.role = .container

theorem mem_settings {r : Rule} {s : Statement} : s ∈ r.settings ↔
    (r.moduleName ≠ "" ∧ s = .moduleName r.moduleName) ∨ s = .location r.location ∨
      (r.role = .presentation ∧ s = .markPresentation) ∨ (∃ p ∈ r.allowedImports, s = .allowImport p) ∨
      s = .denyImports r.deniedImports ∨ s = .denyExports r.deniedExports ∨
      ∃ n ∈ r.maxLines, s = .limitLines n.toNat := by
  cases hlimit : r.maxLines <;> by_cases hname : r.moduleName = "" <;> by_cases hrole : r.role = .presentation <;>
    simp [settings, hname, hrole, hlimit, eq_comm]

namespace Writable

variable {r : Rule}

/-- The statements of a rule make the rule. -/
theorem foldl_statements (h : r.Writable) : r.statements.foldl add {} = r := by
  have hname : (if r.moduleName = "" then [] else [.moduleName r.moduleName]).foldl add {} =
      { moduleName := r.moduleName } := by
    by_cases hname : r.moduleName = "" <;> simp [hname, add]
  have hrole : ∀ q : Rule, q.role = .container →
      (if r.role = .presentation then [.markPresentation] else []).foldl add q = { q with role := r.role } := by
    intro q hq
    rcases h.role with hr | hr
    · simp [hr, add]
    · have hne : Role.container ≠ Role.presentation := by decide
      rw [hr, if_neg hne, ← hq]
      rfl
  have hlimit : ∀ q : Rule, q.maxLines = none →
      (r.maxLines.map fun n => .limitLines n.toNat).toList.foldl add q = { q with maxLines := r.maxLines } := by
    intro q hq
    cases hr : r.maxLines with
    | none =>
      have hsame : { q with maxLines := none } = q := by rw [← hq]
      simp [hsame]
    | some n =>
      have hn := (h.maxLines n hr).1
      simp [add, hq, Int.toNat_of_nonneg hn]
  rw [statements, settings]
  simp only [List.foldl_append, hname, hrole, foldl_allowImport, hlimit, foldl_denyOperation, List.foldl_cons,
    List.foldl_nil, add, if_true, foldl_insertNew_nil, eraseDups_of_nodup h.allowedImports,
    eraseDups_of_nodup h.deniedImports, eraseDups_of_nodup h.deniedExports, eraseDups_of_nodup h.deniedOperations]

theorem named_of_mem (h : r.Writable) {s : Statement} (hs : s ∈ r.statements) : s.Named := by
  rcases List.mem_append.mp hs with hs | hs
  · rcases mem_settings.mp hs with ⟨hne, rfl⟩ | rfl | ⟨-, rfl⟩ | ⟨p, -, rfl⟩ | rfl | rfl | ⟨n, -, rfl⟩
    · exact isIdentValue_iff.mp (h.moduleName.resolve_left hne)
    all_goals exact True.intro
  · obtain ⟨op, hop, rfl⟩ := List.mem_map.mp hs
    exact isIdentValue_iff.mp (h.operation op hop).1

theorem fits_of_mem (h : r.Writable) {s : Statement} (hs : s ∈ r.settings) : s.Fits := by
  rcases mem_settings.mp hs with ⟨-, rfl⟩ | rfl | ⟨-, rfl⟩ | ⟨p, -, rfl⟩ | rfl | rfl | ⟨n, hn, rfl⟩
  any_goals exact True.intro
  have hlt := h.maxLines n hn
  show n.toNat < 10 ^ 18
  omega

/-- **Reading a written rule gives the rule back.** -/
theorem ofText_write (h : r.Writable) : Rule.ofText r.write = r := by
  have hop : ∀ target, .denyOperation target ∉ r.settings := by
    intro target hmem
    simp [mem_settings] at hmem
  have hclosing : wording ['\x7d', '\n'] = [punct "\x7d"] := by
    rw [wording_mark (by decide), wording_newline, wording_nil]
  rw [ofText_eq_wording, write, Statement.wording_lines fun s => h.named_of_mem, hclosing, statements,
    List.flatMap_append, List.append_assoc, ofTokens,
    Statement.ofTokens_flatMap_tokens (fun s => h.fits_of_mem) hop, List.foldl_append, List.flatMap_map,
    Statement.foldl_denials fun op hmem => (h.operation op hmem).2, ← List.foldl_append]
  exact h.foldl_statements

end Writable

theorem writable_ofText (text : List Char) : (Rule.ofText text).Writable := by
  rw [ofText_eq]
  refine ⟨?_, ?_, ?_, ?_, ?_, ?_, ?_, ?_⟩
  · rw [ofTokens_moduleName, firstSet]
    cases hname : (Shape.occurrences Shape.moduleAt (Token.ofText text)).find? (· ≠ "") with
    | none => exact .inl rfl
    | some name =>
      obtain ⟨t, ht, hk, rfl⟩ := exists_of_moduleAt (List.mem_of_find?_eq_some hname)
      exact .inr ⟨text, t, ht, hk, rfl⟩
  · rw [ofTokens_allowedImports]
    exact nodup_eraseDups _
  · rw [ofTokens_deniedImports]
    exact nodup_eraseDups _
  · rw [ofTokens_deniedOperations]
    exact nodup_eraseDups _
  · rw [ofTokens_deniedExports]
    exact nodup_eraseDups _
  · intro op hop
    rw [ofTokens_deniedOperations, List.mem_eraseDups] at hop
    obtain ⟨hoperation, t, ht, hk, rfl⟩ := exists_of_operationAt hop
    exact ⟨⟨text, t, ht, hk, rfl⟩, hoperation⟩
  · intro n hn
    rw [ofTokens_maxLines] at hn
    obtain ⟨m, hm, rfl⟩ := Option.map_eq_some_iff.mp hn
    obtain ⟨t, ht, hk, hlen, rfl⟩ := exists_of_limitAt (List.mem_of_head? hm)
    obtain ⟨-, hdigits⟩ := Token.isNumber_of_mem ht hk
    have hlt : Text.decimalValue t.value.toList < 10 ^ 18 :=
      Nat.lt_of_lt_of_le (decimalValue_lt hdigits) (Nat.pow_le_pow_right (by omega) hlen)
    omega
  · rw [ofTokens_role]
    split
    · exact .inr rfl
    · exact .inl rfl

/-- A rule whose names are words that start statements and whose strings need escapes. -/
def keywords : Rule where
  moduleName := "deny"
  location := "a \"b\"\\\n"
  allowedImports := ["allow", ""]
  deniedImports := ["x", "]", "\t"]
  deniedOperations := ["deny", "module", "allow"]
  maxLines := some 200
  role := .presentation

/-- **Rules are read as they are written**: what is read can be written, and what can be written is read again. -/
theorem write_roundTrip : (∀ text, (Rule.ofText text).Writable) ∧ (∀ r : Rule, r.Writable → Rule.ofText r.write = r) ∧
    ∀ text, Rule.ofText (Rule.ofText text).write = Rule.ofText text :=
  ⟨writable_ofText, fun _ h => h.ofText_write, fun text => (writable_ofText text).ofText_write⟩

theorem ofText_write_keywords : keywords.Writable ∧ Rule.ofText keywords.write = keywords := by
  have hname : Lexeme.IsWord keywords.moduleName.toList := by decide
  have hoperation : ∀ op ∈ keywords.deniedOperations, Lexeme.IsWord op.toList ∧ Shape.IsOperation op := by
    decide +kernel
  have hwritable : keywords.Writable := {
    moduleName := .inr (isIdentValue_iff.mpr hname)
    allowedImports := by decide
    deniedImports := by decide
    deniedOperations := by decide
    deniedExports := by decide
    operation := fun op hop => (hoperation op hop).imp_left isIdentValue_iff.mpr
    maxLines := by decide
    role := .inl rfl
  }
  exact ⟨hwritable, write_roundTrip.2.1 keywords hwritable⟩

end Rule

end Conformance
