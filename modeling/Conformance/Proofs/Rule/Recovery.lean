import Conformance.Proofs.Rule.Scan
import Conformance.Proofs.Rule.Writing

/-!
# Statements among malformed text

A statement that starts on a line of its own takes effect whatever stands before and after it
(`takesEffect_of_writtenBy`): what it adds to a list is in the list, a mark counts, and a name, a location or a limit is
the statement's unless the text before has set it.

A line feed parts the tokens before it from those of the statement (`wording_append_lineFeed`), and later lines take no
token of the statement back (`exists_wording_append`). Among tokens, the pattern of a statement occurs at its first
token (`Statement.Spelled.found`). A name, a location or a limit begun before the statement is not completed by the
statement's first words (`moduleAt_append`, `locationAt_append`, `limitAt_append`), so that what is found before the
statement is what would be found without it (`occurrences_append`).
-/

namespace Conformance

open Shape Token

/-! ## Occurrences in two parts -/

/-- If no occurrence reaches from the first part into the second, what is found at the beginning of the second part
comes right after what the first part alone has. -/
theorem occurrences_append {α : Type} {pattern : List Token → Option α} (hnil : pattern [] = none) {t : Token}
    {vs : List Token} {x : α} (hfound : pattern (t :: vs) = some x)
    (h : ∀ ts, ts ≠ [] → pattern (ts ++ t :: vs) = pattern ts) (us : List Token) :
    occurrences pattern (us ++ t :: vs) = occurrences pattern us ++ x :: occurrences pattern vs := by
  induction us with
  | nil => simp [occurrences, hnil, hfound]
  | cons u us ih =>
    have hfirst : pattern (u :: (us ++ t :: vs)) = pattern (u :: us) := h (u :: us) (List.cons_ne_nil u us)
    rw [List.cons_append, occurrences_cons, occurrences_cons, hfirst, ih, List.append_assoc]

/-- What is found at the beginning of the second part is found. -/
theorem mem_occurrences_append {α : Type} {pattern : List Token → Option α} {vs : List Token} {x : α}
    (h : pattern vs = some x) (us : List Token) : x ∈ occurrences pattern (us ++ vs) :=
  mem_occurrences.mpr ⟨vs, List.suffix_append us vs, h⟩

section Boundary

variable {ts : List Token}

/-- A module that the text before names, or begins to name, is not named by a statement that follows. -/
theorem moduleAt_append (h : ts ≠ []) (name : String) (more : List Token) :
    moduleAt (ts ++ ident "module" :: ident name :: more) = moduleAt ts := by
  rcases ts with - | ⟨key, - | ⟨word, - | ⟨brace, ts⟩⟩⟩
  · exact absurd rfl h
  · simp [name?, afterPunct]
  · simp [name?, afterPunct]
  · simp [name?, afterPunct]

theorem locationAt_append (h : ts ≠ []) (more : List Token) :
    locationAt (ts ++ ident "location" :: more) = locationAt ts := by
  rcases ts with - | ⟨key, - | ⟨colon, - | ⟨path, ts⟩⟩⟩
  · exact absurd rfl h
  · simp [afterPunct]
  · simp [afterPunct, string?]
  · simp [afterPunct, string?]

theorem limitAt_append (h : ts ≠ []) (more : List Token) : limitAt (ts ++ ident "deny" :: more) = limitAt ts := by
  rcases ts with - | ⟨key, - | ⟨target, - | ⟨op, - | ⟨limit, ts⟩⟩⟩⟩
  · exact absurd rfl h
  · simp [afterIdent]
  · simp [afterIdent, afterPunct]
  · simp [afterIdent, afterPunct, limit?]
  · simp [afterIdent, afterPunct, limit?]

end Boundary

/-! ## Effects -/

/-- What a statement makes of a rule: `before` is the rule that the text before the statement writes, `r` the rule that
the whole text writes. An empty location says nothing. -/
def Statement.TakesEffect (before r : Rule) : Statement → Prop
  | .moduleName name => r.moduleName = if before.moduleName = "" then name else before.moduleName
  | .location path => path ≠ "" → r.location = if before.location = "" then path else before.location
  | .allowImport pattern => pattern ∈ r.allowedImports
  | .denyImports patterns => ∀ p ∈ patterns, p ∈ r.deniedImports
  | .denyExports patterns => ∀ p ∈ patterns, p ∈ r.deniedExports
  | .denyOperation target => target ∈ r.deniedOperations
  | .limitLines most => r.maxLines = before.maxLines.or (some (most : Int))
  | .markPresentation => r.role = .presentation

/-- The first of two parts counts if it sets anything. -/
theorem firstSet_append (xs ys : List String) {x : String} (hx : x ≠ "") :
    firstSet (xs ++ x :: ys) = if firstSet xs = "" then x else firstSet xs := by
  rw [firstSet, firstSet, List.find?_append]
  cases hfirst : xs.find? (· ≠ "") with
  | none => simp [hx]
  | some y =>
    have hy : y ≠ "" := by simpa using List.find?_some hfirst
    simp [hy]

/-- **A statement among tokens takes effect**, whatever stands before and after it. -/
theorem Statement.Spelled.takesEffect {s : Statement} {ts : List Token} (h : s.Spelled ts)
    (hname : ∀ name, s = .moduleName name → name ≠ "") (us vs : List Token) :
    s.TakesEffect (Rule.ofTokens us) (Rule.ofTokens (us ++ (ts ++ vs))) := by
  have hfound := h.found vs
  cases s with
  | moduleName name =>
    cases h
    have hocc := occurrences_append rfl hfound (fun ts hts => moduleAt_append hts name _) us
    show (Rule.ofTokens _).moduleName = _
    rw [ofTokens_moduleName, ofTokens_moduleName]
    exact (congrArg firstSet hocc).trans (firstSet_append _ _ (hname name rfl))
  | location path =>
    cases h
    have hocc := occurrences_append rfl hfound (fun ts hts => locationAt_append hts _) us
    intro hpath
    rw [ofTokens_location, ofTokens_location]
    exact (congrArg firstSet hocc).trans (firstSet_append _ _ hpath)
  | allowImport pattern =>
    show pattern ∈ (Rule.ofTokens _).allowedImports
    rw [ofTokens_allowedImports, List.mem_eraseDups]
    exact mem_occurrences_append hfound us
  | denyImports patterns =>
    intro p hp
    rw [ofTokens_deniedImports, List.mem_eraseDups]
    exact List.mem_flatten_of_mem (mem_occurrences_append hfound us) hp
  | denyExports patterns =>
    intro p hp
    rw [ofTokens_deniedExports, List.mem_eraseDups]
    exact List.mem_flatten_of_mem (mem_occurrences_append hfound us) hp
  | denyOperation target =>
    show target ∈ (Rule.ofTokens _).deniedOperations
    rw [ofTokens_deniedOperations, List.mem_eraseDups]
    exact mem_occurrences_append hfound us
  | limitLines most =>
    cases h
    have hocc := occurrences_append rfl hfound (fun ts hts => limitAt_append hts _) us
    show (Rule.ofTokens _).maxLines = _
    rw [ofTokens_maxLines, ofTokens_maxLines]
    refine (congrArg (fun xs : List Nat => xs.head?.map fun n : Nat => (n : Int)) hocc).trans ?_
    rw [List.head?_append]
    cases (occurrences limitAt us).head? <;> rfl
  | markPresentation =>
    show (Rule.ofTokens _).role = .presentation
    rw [ofTokens_role, if_neg (List.ne_nil_of_mem (mem_occurrences_append hfound us))]

/-! ## Lines -/

/-- Whether a text starts with a statement. More may follow the statement. -/
def Statement.WrittenBy (s : Statement) (line : List Char) : Prop :=
  ∃ ts more, s.Spelled ts ∧ wording line = ts ++ more

/-- The line that writes a statement is one. -/
theorem Statement.writtenBy_line {s : Statement} (hnamed : s.Named) (hfits : s.Fits) : s.WrittenBy s.line := by
  have hline : wording (s.line ++ []) = s.tokens ++ wording [] := wording_line hnamed (by simp [Lexeme.EndsLine])
  rw [List.append_nil, wording_nil] at hline
  exact ⟨s.tokens, [], spelled_tokens hfits, hline⟩

/-- A module that is named in a text has a name. -/
theorem Statement.WrittenBy.name_ne_empty {name : String} {line : List Char}
    (h : (Statement.moduleName name).WrittenBy line) : name ≠ "" := by
  obtain ⟨ts, more, hs, hline⟩ := h
  cases hs
  have hmem : ident name ∈ (ofText line).map unplaced := by simp [map_unplaced_ofText, hline]
  obtain ⟨t, ht, heq⟩ := List.mem_map.mp hmem
  have hvalue : t.value = name := congrArg Token.value heq
  exact hvalue ▸ value_ne_empty ht (congrArg Token.kind heq)

/-- **A statement on a line of its own takes effect**, whatever text stands before and after that line. -/
theorem Statement.takesEffect_of_writtenBy {before line : List Char} {s : Statement} (hbefore : ClosesComments before)
    (hs : s.WrittenBy line) (after : List Char) :
    s.TakesEffect (Rule.ofText before) (Rule.ofText (before ++ '\n' :: (line ++ '\n' :: after))) := by
  have hname : ∀ name, s = .moduleName name → name ≠ "" := by
    rintro name rfl
    exact hs.name_ne_empty
  obtain ⟨ts, more, hspelled, hline⟩ := hs
  obtain ⟨rest, hrest⟩ := exists_wording_append line after
  rw [Rule.ofText_eq_wording, Rule.ofText_eq_wording, wording_append_lineFeed hbefore, hrest, hline, List.append_assoc]
  exact hspelled.takesEffect hname _ _

/-- A text that ends in the middle of a pattern list, of a location and of a module. -/
def brokenOff : List Char := "deny imports [\"x\", \"y\nlocation:\nmodule".toList

theorem Statement.takesEffect_after_brokenOff : ClosesComments brokenOff ∧
    (moduleName "Widget").WrittenBy "module Widget \x7b # \"".toList ∧
    (moduleName "Widget").TakesEffect (Rule.ofText brokenOff) (Rule.ofText
      (brokenOff ++ '\n' :: ("module Widget \x7b # \"".toList ++ '\n' :: "] module Other \x7b /*".toList))) := by
  have hbefore : ClosesComments brokenOff := by decide +kernel
  have hline : wording "module Widget \x7b # \"".toList = [ident "module", ident "Widget", punct "\x7b"] := by
    decide +kernel
  have hwritten : (moduleName "Widget").WrittenBy "module Widget \x7b # \"".toList := ⟨_, [], .moduleName, hline⟩
  exact ⟨hbefore, hwritten, takesEffect_of_writtenBy hbefore hwritten _⟩

end Conformance
