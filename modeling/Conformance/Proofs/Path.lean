import Conformance.Path

/-!
# How paths are read and shown

A text without a slash is read as one name (`ofString_name`). What lies below the root of a project is shown by the way
to it (`display_join`). Ways whose names hold no slash are shown differently if they differ (`toString_inj`).
A path that was read from a text is shown with characters of that text, slashes and dots (`notMem_display`).
-/

namespace Conformance.Path

/-! ## Pieces -/

theorem splitAt_eq_splitOn (sep : Char) (cs : List Char) : splitAt sep cs = cs.splitOn sep := by
  induction cs with
  | nil => rfl
  | cons c cs ih =>
    rw [splitAt, ih, List.splitOn_cons_eq_if_modifyHead]
    by_cases hc : c = sep
    · simp [hc]
    · cases hsplit : cs.splitOn sep with
      | nil => exact absurd hsplit (List.splitOn_ne_nil _ _)
      | cons piece pieces => simp [hc]

theorem splitAt_ne_nil (sep : Char) (cs : List Char) : splitAt sep cs ≠ [] := by
  rw [splitAt_eq_splitOn]
  exact List.splitOn_ne_nil _ _

theorem splitAt_cons_self (sep : Char) (cs : List Char) : splitAt sep (sep :: cs) = [] :: splitAt sep cs := if_pos rfl

/-- Before any other character there is no new piece: it begins the first one. -/
theorem exists_splitAt_cons {sep c : Char} (h : c ≠ sep) (cs : List Char) :
    ∃ piece pieces, splitAt sep cs = piece :: pieces ∧ splitAt sep (c :: cs) = (c :: piece) :: pieces := by
  obtain ⟨piece, pieces, hsplit⟩ := List.exists_cons_of_ne_nil (splitAt_ne_nil sep cs)
  exact ⟨piece, pieces, hsplit, by rw [splitAt, if_neg h, hsplit]⟩

/-- A piece of a longer text was a piece before, is empty, or is longer by the first character. -/
theorem mem_splitAt_cons {sep c : Char} {cs piece : List Char} (h : piece ∈ splitAt sep (c :: cs)) :
    piece ∈ splitAt sep cs ∨ piece = [] ∨ c ≠ sep ∧ ∃ first ∈ splitAt sep cs, piece = c :: first := by
  by_cases hc : c = sep
  · rw [hc, splitAt_cons_self] at h
    exact (List.mem_cons.mp h).elim (fun hnil => .inr (.inl hnil)) .inl
  · obtain ⟨first, pieces, hsplit, hcons⟩ := exists_splitAt_cons hc cs
    rw [hcons] at h
    rw [hsplit]
    rcases List.mem_cons.mp h with rfl | h
    · exact .inr (.inr ⟨hc, first, List.mem_cons_self, rfl⟩)
    · exact .inl (List.mem_cons_of_mem _ h)

theorem splitAt_of_notMem {sep : Char} {cs : List Char} (h : sep ∉ cs) : splitAt sep cs = [cs] := by
  rw [splitAt_eq_splitOn, List.splitOn_eq_singleton h]

/-! ## Reading and showing -/

theorem anchorOf_of_notMem {cs : List Char} (h : '/' ∉ cs) : anchorOf cs = .relative := by
  unfold anchorOf
  split <;> simp_all

/-- **A text without a slash is one name**, unless it is empty or a dot. -/
theorem ofString_name {cs : List Char} (hslash : '/' ∉ cs) (hne : cs ≠ []) (hdot : cs ≠ ['.']) :
    ofString (String.ofList cs) = ⟨.relative, [String.ofList cs]⟩ := by
  simp [ofString, components, anchorOf_of_notMem hslash, splitAt_of_notMem hslash, hne, hdot]

/-- **What lies below the root is shown by the way to it.** -/
theorem display_join (root : Path) (names : List String) :
    display root (root.join ⟨.relative, names⟩) = toString ⟨.relative, names⟩ := by
  simp [display, join, relativeTo?]

theorem toList_toString_relative {names : List String} (hne : names ≠ []) :
    (toString ⟨.relative, names⟩).toList = ['/'].intercalate (names.map String.toList) := by
  simp [toString, hne, Anchor.text, String.toList_intercalate]

/-- **A way without slashes in its names can be read back** from how it is shown. -/
theorem toString_inj {names names' : List String} (hne : names ≠ []) (hne' : names' ≠ [])
    (hslash : ∀ n ∈ names, '/' ∉ n.toList) (hslash' : ∀ n ∈ names', '/' ∉ n.toList)
    (h : toString ⟨.relative, names⟩ = toString ⟨.relative, names'⟩) : names = names' := by
  have hjoined : ['/'].intercalate (names.map String.toList) = ['/'].intercalate (names'.map String.toList) := by
    rw [← toList_toString_relative hne, ← toList_toString_relative hne', h]
  have hsplit := congrArg (List.splitOn '/') hjoined
  rw [List.splitOn_intercalate _ (by simpa using hslash) (by simpa using hne),
    List.splitOn_intercalate _ (by simpa using hslash') (by simpa using hne')] at hsplit
  exact List.map_inj_right (fun _ _ => String.toList_inj.mp) |>.mp hsplit

/-! ## Characters -/

section Characters

variable {x : Char}

theorem mem_of_mem_splitAt {sep : Char} {cs piece : List Char} (h : piece ∈ splitAt sep cs) (hx : x ∈ piece) :
    x ∈ cs := by
  induction cs generalizing piece with
  | nil =>
    obtain rfl := List.mem_singleton.mp h
    cases hx
  | cons c cs ih =>
    rcases mem_splitAt_cons h with h | rfl | ⟨-, first, hfirst, rfl⟩
    · exact List.mem_cons_of_mem _ (ih h hx)
    · cases hx
    · rcases List.mem_cons.mp hx with rfl | hx
      · exact List.mem_cons_self
      · exact List.mem_cons_of_mem _ (ih hfirst hx)

/-- A component is made of characters of the text that names it. -/
theorem mem_of_mem_components {cs : List Char} {name : String} (h : name ∈ components cs) (hx : x ∈ name.toList) :
    x ∈ cs := by
  obtain ⟨piece, hpiece, rfl⟩ := List.mem_map.mp h
  exact mem_of_mem_splitAt (List.mem_filter.mp hpiece).1 (by simpa using hx)

theorem mem_intercalate {sep : List Char} {pieces : List (List Char)} (h : x ∈ sep.intercalate pieces) :
    x ∈ sep ∨ ∃ piece ∈ pieces, x ∈ piece := by
  induction pieces with
  | nil => simp at h
  | cons p ps ih =>
    cases ps with
    | nil => exact .inr ⟨p, by simp, by simpa using h⟩
    | cons q qs =>
      rw [List.intercalate_cons_cons, List.append_assoc, List.mem_append, List.mem_append] at h
      rcases h with h | h | h
      · exact .inr ⟨p, List.mem_cons_self, h⟩
      · exact .inl h
      · exact (ih h).imp_right fun ⟨piece, hpiece, hx⟩ => ⟨piece, List.mem_cons_of_mem _ hpiece, hx⟩

theorem notMem_toString (hslash : x ≠ '/') (hdot : x ≠ '.') {p : Path} (h : ∀ n ∈ p.parts, x ∉ n.toList) :
    x ∉ p.toString.toList := by
  rw [toString]
  split
  · simpa using hdot
  · rw [String.toList_append, List.mem_append, String.toList_intercalate]
    rintro (hx | hx)
    · cases hanchor : p.anchor <;> simp [hanchor, Anchor.text, hslash] at hx
    · rcases mem_intercalate hx with hx | ⟨piece, hpiece, hx⟩
      · exact hslash (by simpa using hx)
      · obtain ⟨n, hn, rfl⟩ := List.mem_map.mp hpiece
        exact h n hn hx

/-- What lies below a root has no names that the whole path does not have. -/
theorem mem_parts_of_mem_relativeTo? {root p : Path} {n : String} (h : n ∈ ((p.relativeTo? root).getD p).parts) :
    n ∈ p.parts := by
  unfold relativeTo? at h
  split at h
  · exact List.mem_of_mem_drop h
  · exact h

/-- **What a text locates is shown by characters of the text**, slashes and dots. -/
theorem notMem_display (hslash : x ≠ '/') (hdot : x ≠ '.') {location : String} (h : x ∉ location.toList)
    (root : Path) : x ∉ (display root (root.join (ofString location))).toList := by
  have hparts : ∀ n ∈ (ofString location).parts, x ∉ n.toList := fun n hn hx => h (mem_of_mem_components hn hx)
  generalize ofString location = q at hparts
  obtain ⟨anchor, parts⟩ := q
  cases anchor with
  | relative =>
    rw [display_join]
    exact notMem_toString hslash hdot hparts
  | root | doubleRoot =>
    -- an absolute path stays what it is
    exact notMem_toString hslash hdot fun n hn => hparts n (mem_parts_of_mem_relativeTo? hn)

end Characters

end Conformance.Path
