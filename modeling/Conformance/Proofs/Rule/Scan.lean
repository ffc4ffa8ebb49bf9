import Conformance.Proofs.Rule.Shape

/-!
# One scan for each field

A rule is read in one pass that adds statement after statement. `Rule.scan` reads it field by field instead: each field
is put together from the places at which its own pattern occurs, and no field looks at another.

Both give the same rule (`ofText_eq_scan`). What a statement of one kind does to its field, and that no other kind does
anything to it, is all that a field's result depends on (`field_ofTokens`).
-/

namespace Conformance

open Shape

/-- The first string that is not empty. -/
def firstSet (xs : List String) : String := (xs.find? (· ≠ "")).getD ""

/-- The rule that tokens write, field by field. -/
def Rule.scan (ts : List Token) : Rule where
  moduleName := (occurrences moduleAt ts).head?.getD ""
  location := firstSet (occurrences locationAt ts)
  allowedImports := (occurrences allowAt ts).eraseDups
  deniedImports := (occurrences (listAt "imports") ts).flatten.eraseDups
  deniedOperations := (occurrences operationAt ts).eraseDups
  deniedExports := (occurrences (listAt "exports") ts).flatten.eraseDups
  maxLines := (occurrences limitAt ts).head?.map fun n : Nat => (n : Int)
  role := if occurrences markAt ts = [] then .container else .presentation

/-! ## One field -/

/-- **A field is the result of what its pattern finds**, if statements of one kind change it and no others do. -/
theorem Rule.field_ofTokens {α β : Type} (field : Rule → α) (make : β → Statement) (op : α → β → α)
    {pattern : List Token → Option β} (hnil : pattern [] = none)
    (hfound : ∀ ts x, (make x).Found ts ↔ pattern ts = some x)
    (hmake : ∀ r x, field (r.add (make x)) = op (field r) x)
    (hother : ∀ r s, (∀ x, s ≠ make x) → field (r.add s) = field r) (ts : List Token) :
    field (Rule.ofTokens ts) = (occurrences pattern ts).foldl op (field {}) := by
  have hfold : ∀ r, field ((Statement.ofTokens ts).foldl Rule.add r) =
      (occurrences pattern ts).foldl op (field r) := by
    induction ts with
    | nil => simp [Statement.ofTokens, Statement.readings, occurrences, hnil]
    | cons t ts ih =>
      intro r
      have hread : ∀ x, pattern (t :: ts) = some x ↔ (Statement.read t ts).statement? = some (make x) :=
        fun x => by rw [← hfound, Statement.read_iff]
      have hnone : (∀ x, (Statement.read t ts).statement? ≠ some (make x)) → pattern (t :: ts) = none :=
        fun h => Option.eq_none_iff_forall_ne_some.mpr fun x hx => h x ((hread x).mp hx)
      rw [occurrences_cons, List.foldl_append, Statement.ofTokens_cons, List.foldl_append, ih]
      congr 1
      cases hs : (Statement.read t ts).statement? with
      | none => simp [hnone (by simp [hs])]
      | some s =>
        by_cases hmade : ∃ x, s = make x
        · obtain ⟨x, rfl⟩ := hmade
          simp [(hread x).mpr hs, hmake]
        · have hne : ∀ x, s ≠ make x := fun x hx => hmade ⟨x, hx⟩
          simp [hnone (by simpa [hs] using hne), hother r s hne]
  exact hfold {}

/-! ## Putting fields together -/

theorem foldl_first (xs : List String) :
    xs.foldl (fun a x => if a = "" then x else a) "" = firstSet xs := by
  have hkept : ∀ (a : String), a ≠ "" → ∀ xs : List String, xs.foldl (fun a x => if a = "" then x else a) a = a := by
    intro a ha xs
    induction xs with
    | nil => rfl
    | cons x xs ih => simpa [ha] using ih
  induction xs with
  | nil => rfl
  | cons x xs ih =>
    by_cases hx : x = ""
    · simpa [firstSet, hx] using ih
    · simp [firstSet, hx, hkept x hx xs]

theorem foldl_firstLimit (xs : List Nat) (a : Option Int) :
    xs.foldl (fun a (x : Nat) => if a.isNone = true then some (x : Int) else a) a =
      a.or (xs.head?.map fun x : Nat => (x : Int)) := by
  induction xs generalizing a with
  | nil => simp
  | cons x xs ih =>
    rw [List.foldl_cons, ih]
    cases a <;> simp

/-- Collecting each value once keeps the first occurrences. -/
theorem foldl_insertNew {α : Type} [BEq α] [LawfulBEq α] (xs acc : List α) :
    xs.foldl insertNew acc = acc ++ (xs.removeAll acc).eraseDups := by
  induction xs generalizing acc with
  | nil => simp [List.removeAll]
  | cons x xs ih =>
    rw [List.foldl_cons, ih]
    by_cases hx : x ∈ acc
    · simp [insertNew, List.removeAll, hx]
    · have hfilter : xs.removeAll (acc ++ [x]) = (xs.removeAll acc).filter (fun b => !b == x) := by
        simp only [List.removeAll, List.filter_filter]
        refine List.filter_congr fun b _ => ?_
        cases hb : b == x <;> simp_all
      have hcons : (x :: xs).removeAll acc = x :: xs.removeAll acc := by
        simp [List.removeAll, hx]
      rw [hcons, List.eraseDups_cons, ← hfilter]
      simp [insertNew, hx]

theorem foldl_insertNew_nil {α : Type} [BEq α] [LawfulBEq α] (xs : List α) :
    xs.foldl insertNew [] = xs.eraseDups := by
  simp [foldl_insertNew, List.removeAll]

theorem foldl_foldl_insertNew (xss : List (List String)) :
    xss.foldl (fun acc xs => xs.foldl insertNew acc) [] = xss.flatten.eraseDups := by
  rw [← foldl_insertNew_nil, List.foldl_flatten]

theorem foldl_mark (xs : List Unit) (role : Role) :
    xs.foldl (fun _ _ => Role.presentation) role = if xs = [] then role else .presentation := by
  induction xs generalizing role with
  | nil => rfl
  | cons x xs ih => simp [ih]

/-! ## The fields of a rule -/

section OfTokens

variable (ts : List Token)

theorem ofTokens_moduleName :
    (Rule.ofTokens ts).moduleName = firstSet (occurrences moduleAt ts) := by
  rw [Rule.field_ofTokens Rule.moduleName .moduleName (fun a x => if a = "" then x else a) rfl fun _ _ => Iff.rfl]
  · exact foldl_first _
  · intro r x
    simp only [Rule.add]
    split <;> rfl
  · intro r s hs
    cases s <;> grind [Rule.add]

theorem ofTokens_location :
    (Rule.ofTokens ts).location = firstSet (occurrences locationAt ts) := by
  rw [Rule.field_ofTokens Rule.location .location (fun a x => if a = "" then x else a) rfl fun _ _ => Iff.rfl]
  · exact foldl_first _
  · intro r x
    simp only [Rule.add]
    split <;> rfl
  · intro r s hs
    cases s <;> grind [Rule.add]

theorem ofTokens_allowedImports : (Rule.ofTokens ts).allowedImports = (occurrences allowAt ts).eraseDups := by
  rw [Rule.field_ofTokens Rule.allowedImports .allowImport insertNew rfl (fun _ _ => Iff.rfl) fun _ _ => rfl]
  · exact foldl_insertNew_nil _
  · intro r s hs
    cases s <;> grind [Rule.add]

theorem ofTokens_deniedImports :
    (Rule.ofTokens ts).deniedImports = (occurrences (listAt "imports") ts).flatten.eraseDups := by
  rw [Rule.field_ofTokens Rule.deniedImports .denyImports (fun acc ps => ps.foldl insertNew acc) rfl
    (fun _ _ => Iff.rfl) fun _ _ => rfl]
  · exact foldl_foldl_insertNew _
  · intro r s hs
    cases s <;> grind [Rule.add]

theorem ofTokens_deniedExports :
    (Rule.ofTokens ts).deniedExports = (occurrences (listAt "exports") ts).flatten.eraseDups := by
  rw [Rule.field_ofTokens Rule.deniedExports .denyExports (fun acc ps => ps.foldl insertNew acc) rfl
    (fun _ _ => Iff.rfl) fun _ _ => rfl]
  · exact foldl_foldl_insertNew _
  · intro r s hs
    cases s <;> grind [Rule.add]

theorem ofTokens_deniedOperations :
    (Rule.ofTokens ts).deniedOperations = (occurrences operationAt ts).eraseDups := by
  rw [Rule.field_ofTokens Rule.deniedOperations .denyOperation insertNew rfl (fun _ _ => Iff.rfl) fun _ _ => rfl]
  · exact foldl_insertNew_nil _
  · intro r s hs
    cases s <;> grind [Rule.add]

theorem ofTokens_maxLines :
    (Rule.ofTokens ts).maxLines = (occurrences limitAt ts).head?.map fun n : Nat => (n : Int) := by
  rw [Rule.field_ofTokens Rule.maxLines .limitLines (fun a (x : Nat) => if a.isNone = true then some (x : Int) else a)
    rfl fun _ _ => Iff.rfl]
  · exact (foldl_firstLimit _ none).trans Option.none_or
  · intro r x
    simp only [Rule.add]
    split <;> rfl
  · intro r s hs
    cases s <;> grind [Rule.add]

theorem ofTokens_role :
    (Rule.ofTokens ts).role = if occurrences markAt ts = [] then .container else .presentation := by
  rw [Rule.field_ofTokens Rule.role (fun _ : Unit => .markPresentation) (fun _ _ => .presentation) rfl
    (fun _ _ => Iff.rfl) fun _ _ => rfl]
  · exact foldl_mark _ .container
  · intro r s hs
    cases s
    case markPresentation => exact absurd rfl (hs ())
    all_goals grind [Rule.add]

end OfTokens

theorem firstSet_eq_head {xs : List String} (h : ∀ x ∈ xs, x ≠ "") : firstSet xs = xs.head?.getD "" := by
  cases xs with
  | nil => rfl
  | cons x xs => simp [firstSet, h x List.mem_cons_self]

/-- **A text writes the rule that is found field by field.** -/
theorem Rule.ofText_eq_scan (text : List Char) : Rule.ofText text = Rule.scan (Token.ofText text) := by
  have hname : ∀ name ∈ occurrences moduleAt (Token.ofText text), name ≠ "" := by
    intro name h
    obtain ⟨t, ht, hk, rfl⟩ := exists_of_moduleAt h
    exact Token.value_ne_empty ht hk
  rw [Rule.ofText_eq, Rule.scan, ← firstSet_eq_head hname, ← ofTokens_moduleName, ← ofTokens_location,
    ← ofTokens_allowedImports, ← ofTokens_deniedImports, ← ofTokens_deniedOperations, ← ofTokens_deniedExports,
    ← ofTokens_maxLines, ← ofTokens_role]

end Conformance
