import Conformance.Proofs.Path
import Conformance.Rule.Basic

/-!
# Spellings of a path

Texts that write the same path differ in the empty pieces and single dots between their slashes. What is asked of the
text itself may depend on that: whether a name without slashes occurs in it does not (`occursIn_eq_any_parts`), and
whether a folder of a given name is on the way, or whether a location is that of a component, depends only on how the
text begins and ends (`occursIn_folder_congr`, `isComponentLocation_congr`).
-/

namespace Conformance.Path

/-! ## Pieces -/

/-- Whether a piece is a component. -/
def isName (piece : List Char) : Bool := !piece.isEmpty && piece != ['.']

theorem isPrefixOf_eq_of_splitAt {needle cs piece : List Char} {pieces : List (List Char)} (h : '/' ∉ needle)
    (hsplit : splitAt '/' cs = piece :: pieces) : needle.isPrefixOf cs = needle.isPrefixOf piece := by
  induction cs generalizing needle piece pieces with
  | nil =>
    obtain ⟨rfl, -⟩ := List.cons.inj hsplit
    rfl
  | cons c cs ih =>
    cases needle with
    | nil => simp
    | cons n needle =>
      obtain ⟨hn, hneedle⟩ : '/' ≠ n ∧ '/' ∉ needle := by simpa using h
      by_cases hc : c = '/'
      · rw [hc, splitAt_cons_self] at hsplit
        obtain ⟨rfl, -⟩ := List.cons.inj hsplit
        simp [List.isPrefixOf, hc, hn.symm]
      · obtain ⟨first, rest, htail, hcons⟩ := exists_splitAt_cons hc cs
        rw [hcons] at hsplit
        obtain ⟨rfl, -⟩ := List.cons.inj hsplit
        simp [List.isPrefixOf, ih hneedle htail]

/-- **A text without slashes occurs where it occurs in a piece.** -/
theorem occurs_eq_any_splitAt {needle : List Char} (h : '/' ∉ needle) (cs : List Char) :
    Text.occurs needle cs = (splitAt '/' cs).any (Text.occurs needle) := by
  induction cs with
  | nil => simp [splitAt]
  | cons c cs ih =>
    rw [Text.occurs, ih]
    by_cases hc : c = '/'
    · have hstart : needle.isPrefixOf (c :: cs) = needle.isEmpty := by
        cases needle with
        | nil => rfl
        | cons n needle =>
          have hn : '/' ≠ n := fun hn => h (hn ▸ List.mem_cons_self)
          simp [List.isPrefixOf, hc, hn.symm]
      rw [hstart, hc, splitAt_cons_self, List.any_cons, Text.occurs]
    · obtain ⟨piece, pieces, hsplit, hcons⟩ := exists_splitAt_cons hc cs
      have hstart : needle.isPrefixOf (c :: cs) = needle.isPrefixOf (c :: piece) := isPrefixOf_eq_of_splitAt h hcons
      rw [hstart, hsplit, hcons, List.any_cons, List.any_cons, Text.occurs, Bool.or_assoc]

/-- What is left out holds no name. -/
theorem isName_of_occurs {needle piece : List Char} (hneedle : isName needle) (h : Text.occurs needle piece) :
    isName piece := by
  cases needle with
  | nil => cases hneedle
  | cons n needle =>
    cases piece with
    | nil => cases h
    | cons p piece =>
      by_cases hdot : p :: piece = ['.']
      · -- only the dot itself begins a dot
        obtain ⟨rfl, rfl⟩ := List.cons.inj hdot
        obtain ⟨rfl, rfl⟩ : n = '.' ∧ needle = [] := by simpa [Text.occurs, List.isPrefixOf] using h
        cases hneedle
      · simpa [isName] using hdot

/-- **Whether a name occurs in a text depends on the path only.** -/
theorem occursIn_eq_any_parts {needle : String} (hslash : '/' ∉ needle.toList) (hname : isName needle.toList)
    (s : String) : Text.occursIn needle s = (ofString s).parts.any (Text.occursIn needle) := by
  rw [Text.occursIn, occurs_eq_any_splitAt hslash, ofString, components, List.any_map, List.any_filter]
  refine List.any_congr rfl fun piece => ?_
  show Text.occurs needle.toList piece =
    (isName piece && Text.occurs needle.toList (String.ofList piece).toList)
  rw [String.toList_ofList]
  cases hoccurs : Text.occurs needle.toList piece with
  | true => simp [isName_of_occurs hname hoccurs]
  | false => simp

/-! ## Folders on the way -/

theorem intercalate_append {sep : List Char} {before after : List (List Char)} (hbefore : before ≠ [])
    (hafter : after ≠ []) :
    sep.intercalate (before ++ after) = sep.intercalate before ++ sep ++ sep.intercalate after := by
  induction before with
  | nil => exact absurd rfl hbefore
  | cons piece before ih =>
    cases before with
    | nil => rw [List.singleton_append, List.intercalate_cons_of_ne_nil hafter, List.intercalate_singleton]
    | cons next before =>
      have hne : next :: before ++ after ≠ [] := by simp
      rw [List.cons_append, List.intercalate_cons_of_ne_nil hne, ih (by simp),
        List.intercalate_cons_of_ne_nil (List.cons_ne_nil next before)]
      simp only [List.append_assoc]

/-- A name between slashes is a piece with pieces on both sides. -/
theorem occurs_folder_iff {name cs : List Char} (hslash : '/' ∉ name) :
    Text.occurs ('/' :: name ++ ['/']) cs ↔
      ∃ before after, splitAt '/' cs = before ++ name :: after ∧ before ≠ [] ∧ after ≠ [] := by
  rw [Text.occurs_iff]
  constructor
  · rintro ⟨u, v, rfl⟩
    refine ⟨splitAt '/' u, splitAt '/' v, ?_, splitAt_ne_nil _ _, splitAt_ne_nil _ _⟩
    simp only [splitAt_eq_splitOn, List.cons_append, List.append_assoc, List.nil_append,
      List.splitOn_append_cons_self, List.splitOn_eq_singleton hslash]
  · rintro ⟨before, after, hsplit, hbefore, hafter⟩
    refine ⟨['/'].intercalate before, ['/'].intercalate after, ?_⟩
    have hcs : ['/'].intercalate (splitAt '/' cs) = cs := by rw [splitAt_eq_splitOn, List.intercalate_splitOn]
    rw [← hcs, hsplit, intercalate_append hbefore (List.cons_ne_nil _ _), List.intercalate_cons_of_ne_nil hafter]
    simp

/-- The components of a text, as characters. -/
def names (cs : List Char) : List (List Char) := (splitAt '/' cs).filter isName

/-- Whether a text begins with a component. -/
def beginsWithName (cs : List Char) : Bool := (splitAt '/' cs).head?.any isName

/-- Whether a text ends with a component. -/
def endsWithName (cs : List Char) : Bool := (splitAt '/' cs).getLast?.any isName

theorem names_eq_of_components {cs cs' : List Char} (h : components cs = components cs') : names cs = names cs' :=
  List.map_inj_right (fun _ _ => String.ofList_inj.mp) |>.mp h

/-- What stands around a member that a filter keeps stands around it in the filtered list, except that ends which the
filter drops are lost. -/
theorem exists_around_iff {α : Type} {p : α → Bool} {xs : List α} {x : α} (hx : p x) :
    (∃ before after, xs = before ++ x :: after ∧ before ≠ [] ∧ after ≠ []) ↔
      ∃ before after, xs.filter p = before ++ x :: after ∧ (before ≠ [] ∨ ¬ xs.head?.any p) ∧
        (after ≠ [] ∨ ¬ xs.getLast?.any p) := by
  constructor
  · rintro ⟨before, after, rfl, hbefore, hafter⟩
    refine ⟨before.filter p, after.filter p, by simp [hx], ?_, ?_⟩
    · obtain ⟨b, before, rfl⟩ := List.exists_cons_of_ne_nil hbefore
      by_cases hb : p b <;> simp [hb]
    · obtain ⟨after, a, rfl⟩ := (List.eq_nil_or_concat after).resolve_left hafter
      have hlast : (before ++ x :: after.concat a).getLast? = some a := by
        rw [List.concat_eq_append, ← List.cons_append, ← List.append_assoc, List.getLast?_concat]
      rw [hlast]
      by_cases ha : p a <;> simp [ha]
  · rintro ⟨before, after, hfilter, hbefore, hafter⟩
    obtain ⟨u, v, rfl, rfl, hv⟩ := List.filter_eq_append_iff.mp hfilter
    obtain ⟨w, z, rfl, hw, -, rfl⟩ := List.filter_eq_cons_iff.mp hv
    refine ⟨u ++ w, z, by simp, ?_, ?_⟩
    · intro hnil
      obtain ⟨rfl, rfl⟩ := List.append_eq_nil_iff.mp hnil
      simp [hx] at hbefore
    · rintro rfl
      simp [hx] at hafter

/-- **A folder is on the way iff it is a component that is followed and, unless the text begins otherwise, preceded by
another.** -/
theorem occurs_folder_iff_names {name cs : List Char} (hslash : '/' ∉ name) (hname : isName name) :
    Text.occurs ('/' :: name ++ ['/']) cs ↔
      ∃ before after, names cs = before ++ name :: after ∧ (before ≠ [] ∨ ¬ beginsWithName cs) ∧
        (after ≠ [] ∨ ¬ endsWithName cs) := by
  rw [occurs_folder_iff hslash]
  exact exists_around_iff hname

/-! ## Ends -/

/-- What ends a text without a slash ends its last piece. -/
theorem suffix_intercalate_iff {suffix last : List Char} (hslash : '/' ∉ suffix) (before : List (List Char)) :
    suffix <:+ ['/'].intercalate (before ++ [last]) ↔ suffix <:+ last := by
  cases before with
  | nil => simp
  | cons piece before =>
    rw [intercalate_append (List.cons_ne_nil _ _) (List.cons_ne_nil _ _), List.intercalate_singleton,
      List.append_assoc, List.singleton_append]
    constructor
    · intro h
      have hlast : '/' :: last <:+ ['/'].intercalate (piece :: before) ++ '/' :: last := List.suffix_append _ _
      rcases List.suffix_or_suffix_of_suffix h hlast with h | h
      · rcases List.suffix_cons_iff.mp h with rfl | h
        · exact absurd List.mem_cons_self hslash
        · exact h
      · exact absurd (h.subset List.mem_cons_self) hslash
    · intro h
      exact h.trans ((List.suffix_cons _ _).trans (List.suffix_append _ _))

/-- **What ends a text ends the last component, which must end the text.** -/
theorem suffix_iff_names {suffix cs : List Char} (hslash : '/' ∉ suffix) (hname : isName suffix) :
    suffix <:+ cs ↔ endsWithName cs ∧ ∃ name ∈ (names cs).getLast?, suffix <:+ name := by
  obtain ⟨before, last, hsplit⟩ := (List.eq_nil_or_concat (splitAt '/' cs)).resolve_left (splitAt_ne_nil _ _)
  rw [List.concat_eq_append] at hsplit
  have hsuffix : suffix <:+ ['/'].intercalate (before ++ [last]) ↔ suffix <:+ last :=
    suffix_intercalate_iff hslash before
  rw [← hsplit, splitAt_eq_splitOn, List.intercalate_splitOn] at hsuffix
  rw [hsuffix, endsWithName, names, hsplit]
  by_cases hlast : isName last
  · simp [hlast]
  · refine iff_of_false (fun h => hlast ?_) (by simp [hlast])
    obtain ⟨u, hu⟩ := h
    exact isName_of_occurs hname (Text.occurs_iff.mpr ⟨u, [], by simp [hu]⟩)

/-! ## Texts that begin and end alike -/

section Congr

variable {cs cs' : List Char} (hnames : names cs = names cs') (hends : endsWithName cs = endsWithName cs')
include hnames hends

theorem occurs_folder_congr {name : List Char} (hslash : '/' ∉ name) (hname : isName name)
    (hbegins : beginsWithName cs = beginsWithName cs') :
    Text.occurs ('/' :: name ++ ['/']) cs = Text.occurs ('/' :: name ++ ['/']) cs' := by
  rw [Bool.eq_iff_iff, occurs_folder_iff_names hslash hname, occurs_folder_iff_names hslash hname, hnames, hbegins,
    hends]

theorem isSuffixOf_congr {suffix : List Char} (hslash : '/' ∉ suffix) (hname : isName suffix) :
    suffix.isSuffixOf cs = suffix.isSuffixOf cs' := by
  rw [Bool.eq_iff_iff, List.isSuffixOf_iff_suffix, List.isSuffixOf_iff_suffix, suffix_iff_names hslash hname,
    suffix_iff_names hslash hname, hnames, hends]

/-- **A folder of the given name is on the way in both texts or in neither**, with a slash before each. -/
theorem occurs_folder_slash_congr {name : List Char} (hslash : '/' ∉ name) (hname : isName name) :
    Text.occurs ('/' :: name ++ ['/']) ('/' :: cs) = Text.occurs ('/' :: name ++ ['/']) ('/' :: cs') := by
  have hcons : ∀ cs, splitAt '/' ('/' :: cs) = [] :: splitAt '/' cs := splitAt_cons_self '/'
  have hlast : ∀ cs, endsWithName ('/' :: cs) = endsWithName cs := by
    intro cs
    obtain ⟨piece, pieces, hsplit⟩ := List.exists_cons_of_ne_nil (splitAt_ne_nil '/' cs)
    simp [endsWithName, hcons, hsplit]
  refine occurs_folder_congr ?_ ?_ hslash hname ?_
  · simpa [names, hcons, isName] using hnames
  · rw [hlast, hlast, hends]
  · simp [beginsWithName, hcons]

end Congr

end Conformance.Path

namespace Conformance.Rule

/-- **Texts that write the same path and begin and end alike** are locations of components together. -/
theorem isComponentLocation_congr {l l' : String} (hpath : Path.ofString l = Path.ofString l')
    (hbegins : Path.beginsWithName l.toList = Path.beginsWithName l'.toList)
    (hends : Path.endsWithName l.toList = Path.endsWithName l'.toList) :
    isComponentLocation l = isComponentLocation l' := by
  have hnames := Path.names_eq_of_components (Path.mk.inj hpath).2
  have hfolder : Text.occursIn "/components/" l = Text.occursIn "/components/" l' :=
    Path.occurs_folder_congr hnames hends (show '/' ∉ "components".toList by decide) (by decide) hbegins
  have hending : ∀ suffix ∈ [".tsx", ".jsx"],
      suffix.toList.isSuffixOf l.toList = suffix.toList.isSuffixOf l'.toList := by
    intro suffix hsuffix
    have hname : '/' ∉ suffix.toList ∧ Path.isName suffix.toList := by
      have hall : ∀ suffix ∈ [".tsx", ".jsx"], '/' ∉ suffix.toList ∧ Path.isName suffix.toList := by decide
      exact hall suffix hsuffix
    exact Path.isSuffixOf_congr hnames hends hname.1 hname.2
  rw [isComponentLocation, isComponentLocation, hfolder, hending ".tsx" (by simp), hending ".jsx" (by simp)]

end Conformance.Rule
