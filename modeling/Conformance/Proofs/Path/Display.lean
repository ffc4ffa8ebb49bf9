import Conformance.Proofs.Path.Spelling

/-!
# What is shown leads back

The components of a path that was read from a text can be written (`isWritten_ofString`), and then the text of a path
writes the path (`ofString_toString`). So what a project shows of a path is shown as it is when it is looked up from the
root again (`display_join_display`). A location is shown without its empty components and single dots
(`display_join_relative`), an absolute one that lies below the root like the way to it (`display_join_below`), and any
other one whole (`display_join_elsewhere`).
-/

namespace Conformance.Path

/-- The components of a path are ones that a text can write. -/
def IsWritten (p : Path) : Prop := ∀ n ∈ p.parts, '/' ∉ n.toList ∧ isName n.toList

/-- The text without its empty components and single dots; a dot if nothing is left. -/
def tidied (s : String) : String :=
  let names := (s.toList.splitOn '/').filter isName
  if names = [] then "." else String.ofList (['/'].intercalate names)

/-! ## Reading what was written -/

/-- The components of a text are the names between its slashes. -/
theorem components_eq (cs : List Char) : components cs = ((cs.splitOn '/').filter isName).map String.ofList := by
  rw [← splitAt_eq_splitOn]
  rfl

/-- **Names between slashes are read as these names.** -/
theorem components_intercalate {parts : List String} (h : ∀ n ∈ parts, '/' ∉ n.toList ∧ isName n.toList) :
    components (['/'].intercalate (parts.map String.toList)) = parts := by
  by_cases hnil : parts = []
  · rw [hnil]
    rfl
  · have hslash : ∀ piece ∈ parts.map String.toList, '/' ∉ piece := List.forall_mem_map.mpr fun n hn => (h n hn).1
    have hkeep : (parts.map String.toList).filter isName = parts.map String.toList := by
      rw [List.filter_eq_self, List.forall_mem_map]
      exact fun n hn => (h n hn).2
    rw [components_eq, List.splitOn_intercalate _ hslash (by simpa using hnil), hkeep, List.map_map]
    simp

/-- Names between slashes do not begin with a slash. -/
theorem head?_intercalate {parts : List String} (h : ∀ n ∈ parts, '/' ∉ n.toList ∧ isName n.toList) :
    (['/'].intercalate (parts.map String.toList)).head? ≠ some '/' := by
  cases parts with
  | nil => simp
  | cons n parts =>
    obtain ⟨hslash, hname⟩ := h n List.mem_cons_self
    cases hn : n.toList with
    | nil => simp [hn, isName] at hname
    | cons c cs =>
      have hc : c ≠ '/' := fun hc => hslash (hn ▸ hc ▸ List.mem_cons_self)
      cases parts <;> simp [hn, hc]

theorem anchorOf_eq_relative_iff {cs : List Char} : anchorOf cs = .relative ↔ cs.head? ≠ some '/' := by
  cases cs with
  | nil => simp [anchorOf]
  | cons c cs => unfold anchorOf; split <;> simp_all

/-- The slashes before other characters are the anchor. -/
theorem anchorOf_append {cs : List Char} (h : cs.head? ≠ some '/') (a : Anchor) :
    anchorOf (a.text.toList ++ cs) = a := by
  cases a with
  | relative => exact anchorOf_eq_relative_iff.mpr h
  | root | doubleRoot =>
    cases cs with
    | nil => rfl
    | cons c cs =>
      have hc : c ≠ '/' := by simpa using h
      simp [anchorOf, Anchor.text, hc]

/-- An anchor says nothing about the components. -/
theorem components_append (a : Anchor) (cs : List Char) : components (a.text.toList ++ cs) = components cs := by
  cases a <;> rfl

/-- **The text of a path writes the path.** -/
theorem ofString_toString {p : Path} (h : p.IsWritten) : ofString p.toString = p := by
  obtain ⟨anchor, parts⟩ := p
  by_cases hdot : anchor = .relative ∧ parts = []
  · obtain ⟨rfl, rfl⟩ := hdot
    rfl
  · rw [toString, if_neg hdot, ofString, String.toList_append, String.toList_intercalate]
    show (⟨anchorOf (anchor.text.toList ++ ['/'].intercalate (parts.map String.toList)),
      components (anchor.text.toList ++ ['/'].intercalate (parts.map String.toList))⟩ : Path) = ⟨anchor, parts⟩
    rw [anchorOf_append (head?_intercalate h), components_append, components_intercalate h]

/-- Pieces between separators hold none. -/
theorem notMem_of_mem_splitAt {sep : Char} {cs piece : List Char} (h : piece ∈ splitAt sep cs) : sep ∉ piece := by
  induction cs generalizing piece with
  | nil =>
    obtain rfl := List.mem_singleton.mp h
    exact List.not_mem_nil
  | cons c cs ih =>
    rcases mem_splitAt_cons h with h | rfl | ⟨hc, first, hfirst, rfl⟩
    · exact ih h
    · exact List.not_mem_nil
    · rw [List.mem_cons, not_or]
      exact ⟨Ne.symm hc, ih hfirst⟩

theorem isWritten_ofString (s : String) : (ofString s).IsWritten := by
  intro n hn
  obtain ⟨piece, hpiece, rfl⟩ := List.mem_map.mp hn
  obtain ⟨hpiece, hname⟩ := List.mem_filter.mp hpiece
  rw [String.toList_ofList]
  exact ⟨notMem_of_mem_splitAt hpiece, hname⟩

/-- The paths that texts write are those whose components can be written. -/
theorem isWritten_iff {p : Path} : p.IsWritten ↔ ∃ s, ofString s = p :=
  ⟨fun h => ⟨p.toString, ofString_toString h⟩, fun ⟨s, hs⟩ => hs ▸ isWritten_ofString s⟩

/-! ## What is shown -/

section Display

variable {root : Path}

theorem anchor_of_relativeTo? {p way : Path} (h : p.relativeTo? root = some way) : way.anchor = .relative := by
  rw [relativeTo?] at h
  split at h
  · obtain rfl := Option.some.inj h
    rfl
  · cases h

theorem isWritten_of_relativeTo? {p way : Path} (h : p.IsWritten) (hbelow : p.relativeTo? root = some way) :
    way.IsWritten := by
  intro n hn
  have hmem : n ∈ ((p.relativeTo? root).getD p).parts := by rwa [hbelow]
  exact h n (mem_parts_of_mem_relativeTo? hmem)

/-- What lies below the root is the way to it, from the root. -/
theorem eq_join_of_relativeTo? {p way : Path} (h : p.relativeTo? root = some way) : p = root.join way := by
  obtain ⟨anchor, parts⟩ := p
  rw [relativeTo?] at h
  split at h
  · rename_i hbelow
    simp only [Bool.and_eq_true, decide_eq_true_eq, List.isPrefixOf_iff_prefix] at hbelow
    obtain ⟨rfl, rest, rfl⟩ := hbelow
    obtain rfl := Option.some.inj h
    rw [join, List.drop_left]
  · cases h

/-- An absolute path stays what it is. -/
theorem join_of_absolute {q : Path} (h : q.anchor ≠ .relative) : root.join q = q := by
  unfold join
  split
  · contradiction
  · rfl

/-- From the root, what is relative and what does not lie below the root are shown as they are. -/
theorem display_join_eq {q : Path} (h : q.anchor = .relative ∨ q.relativeTo? root = none) :
    display root (root.join q) = q.toString := by
  by_cases hanchor : q.anchor = .relative
  · have hway : q = ⟨.relative, q.parts⟩ := hanchor ▸ rfl
    rw [hway]
    exact display_join root q.parts
  · rw [join_of_absolute hanchor, display, h.resolve_left hanchor, Option.getD_none]

/-- **What is shown is shown again** if it is looked up from the root. -/
theorem display_join_display {p : Path} (h : p.IsWritten) :
    display root (root.join (ofString (display root p))) = display root p := by
  cases hbelow : p.relativeTo? root with
  | some way =>
    have hshown : display root p = way.toString := by rw [display, hbelow, Option.getD_some]
    rw [hshown, ofString_toString (isWritten_of_relativeTo? h hbelow)]
    exact display_join_eq (.inl (anchor_of_relativeTo? hbelow))
  | none =>
    have hshown : display root p = p.toString := by rw [display, hbelow, Option.getD_none]
    rw [hshown, ofString_toString h]
    exact display_join_eq (.inr hbelow)

theorem toString_parts_ofString (s : String) : toString ⟨.relative, (ofString s).parts⟩ = tidied s := by
  have hparts : (ofString s).parts = ((s.toList.splitOn '/').filter isName).map String.ofList := components_eq _
  unfold tidied
  rw [hparts]
  by_cases hnil : (s.toList.splitOn '/').filter isName = []
  · rw [if_pos hnil, hnil]
    rfl
  · rw [if_neg hnil, ← String.toList_inj, toList_toString_relative (by simpa using hnil), List.map_map]
    simp

/-- **A location is shown without its empty components and single dots.** -/
theorem display_join_relative {location : String} (h : location.toList.head? ≠ some '/') :
    display root (root.join (ofString location)) = tidied location := by
  have hanchor : (ofString location).anchor = .relative := anchorOf_eq_relative_iff.mpr h
  rw [display_join_eq (.inl hanchor), ← toString_parts_ofString, ← hanchor]

/-- **An absolute location below the root is shown like the way to it.** -/
theorem display_join_below {location way : String} (hlocation : location.toList.head? = some '/')
    (hway : way.toList.head? ≠ some '/') (hbelow : ofString location = root.join (ofString way)) :
    display root (root.join (ofString location)) = tidied way := by
  have habsolute : (ofString location).anchor ≠ .relative := mt anchorOf_eq_relative_iff.mp (not_not_intro hlocation)
  rw [join_of_absolute habsolute, hbelow]
  exact display_join_relative hway

/-- **A location that is no way from the root is shown whole.** -/
theorem display_join_elsewhere {location : String}
    (h : ∀ way : String, way.toList.head? ≠ some '/' → ofString location ≠ root.join (ofString way)) :
    display root (root.join (ofString location)) = (ofString location).toString := by
  refine display_join_eq (.inr ?_)
  cases hbelow : (ofString location).relativeTo? root with
  | none => rfl
  | some way =>
    have hread : ofString way.toString = way :=
      ofString_toString (isWritten_of_relativeTo? (isWritten_ofString location) hbelow)
    have hrelative : (ofString way.toString).anchor = .relative :=
      (congrArg anchor hread).trans (anchor_of_relativeTo? hbelow)
    refine absurd ?_ (h way.toString (anchorOf_eq_relative_iff.mp hrelative))
    rw [hread]
    exact eq_join_of_relativeTo? hbelow

end Display

/-- **What is shown leads back, and a location is shown tidied.** What is shown of a path is shown as it is if it is
looked up from the root again. A relative location is shown without its empty components and single dots, whatever the
root is, an absolute one that is the same path as a way from the root like that way, and any other one whole. -/
theorem display_resolved (root : Path) :
    (∀ p : String, display root (root.join (ofString (display root (ofString p)))) = display root (ofString p)) ∧
      (∀ location : String, location.toList.head? ≠ some '/' →
        display root (root.join (ofString location)) = tidied location) ∧
      (∀ location way : String, location.toList.head? = some '/' → way.toList.head? ≠ some '/' →
        ofString location = root.join (ofString way) → display root (root.join (ofString location)) = tidied way) ∧
      ∀ location : String,
        (∀ way : String, way.toList.head? ≠ some '/' → ofString location ≠ root.join (ofString way)) →
          display root (root.join (ofString location)) = (ofString location).toString :=
  ⟨fun p => display_join_display (isWritten_ofString p), fun _ h => display_join_relative h,
    fun _ _ hlocation hway hbelow => display_join_below hlocation hway hbelow, fun _ h => display_join_elsewhere h⟩

/-- A location above its own folder, and an absolute one below the root. -/
theorem display_resolved_detours :
    display ⟨.root, ["proj"]⟩ (join ⟨.root, ["proj"]⟩ (ofString "./src//../a.ts/")) = "src/../a.ts" ∧
      display ⟨.root, ["proj"]⟩ (join ⟨.root, ["proj"]⟩ (ofString "///proj/./src//")) = "src" := by
  obtain ⟨-, hrelative, hbelow, -⟩ := display_resolved ⟨.root, ["proj"]⟩
  have htidied : tidied "./src//../a.ts/" = "src/../a.ts" ∧ tidied "src" = "src" := by decide +kernel
  refine ⟨(hrelative _ (by decide)).trans htidied.1, (hbelow _ "src" (by decide) (by decide) ?_).trans htidied.2⟩
  decide +kernel

end Conformance.Path
