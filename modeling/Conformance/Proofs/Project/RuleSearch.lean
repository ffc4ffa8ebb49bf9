import Conformance.Project.Check
import Conformance.Proofs.Tree.Contents
import Mathlib.Data.List.Sort
import Mathlib.Data.String.Basic

/-!
# What a search for rule files finds

A way is admitted if its last name is that of a rule file and every folder on it is entered. A search finds the files at
the admitted ways and nothing else (`mem_find`), in the order of their ways, name by name (`pairwise_find`). So it finds
each of them once, and the result depends neither on the order in which folders list their entries nor on how the
ignored names are listed (`find_congr`).

For the rule files of a project all this stands together in `Project.ruleFiles_exact`.
-/

namespace Conformance

namespace RuleSearch

/-- Whether a rule file may lie at the end of a way: the last name is accepted, and the folders on the way are
entered. -/
def Admits (s : RuleSearch) (way : List String) : Prop :=
  ∃ folders name, way = folders ++ [name] ∧ (∀ n ∈ folders, s.enters n) ∧ s.accepts name

variable {s : RuleSearch} {entries : List (String × Tree)} {f : FoundFile}

/-! ## Admitted ways -/

theorem accepts_iff {name : String} : s.accepts name ↔ s.suffix.toList <:+ name.toList := by
  rw [accepts, List.isSuffixOf_iff_suffix]

theorem enters_iff {name : String} : s.enters name ↔ ¬ ['.'] <+: name.toList ∧ name ∉ s.ignoredFolders := by
  have hhidden : ['.'] <+: name.toList ↔ name.toList.head? = some '.' := by
    cases name.toList <;> simp [eq_comm]
  simp [enters, hhidden]

theorem not_admits_nil : ¬ s.Admits [] := by
  rintro ⟨folders, name, h, -⟩
  simp at h

theorem admits_singleton {name : String} : s.Admits [name] ↔ s.accepts name := by
  constructor
  · rintro ⟨folders, last, h, -, hlast⟩
    obtain ⟨rfl, hname⟩ := List.append_eq_singleton_iff.mp h.symm |>.resolve_right (by simp)
    exact (List.singleton_inj.mp hname) ▸ hlast
  · exact fun h => ⟨[], name, rfl, by simp, h⟩

theorem admits_cons {name : String} {way : List String} (hway : way ≠ []) :
    s.Admits (name :: way) ↔ s.enters name ∧ s.Admits way := by
  constructor
  · rintro ⟨folders, last, h, hfolders, hlast⟩
    cases folders with
    | nil => exact absurd (List.cons.inj h).2 hway
    | cons folder folders =>
      obtain ⟨rfl, rfl⟩ := List.cons.inj h
      obtain ⟨hname, hfolders⟩ := List.forall_mem_cons.mp hfolders
      exact ⟨hname, folders, last, rfl, hfolders, hlast⟩
  · rintro ⟨hname, folders, last, rfl, hfolders, hlast⟩
    exact ⟨name :: folders, last, rfl, List.forall_mem_cons.mpr ⟨hname, hfolders⟩, hlast⟩

theorem Admits.ne_nil {way : List String} (h : s.Admits way) : way ≠ [] := by
  rintro rfl
  exact not_admits_nil h

/-! ## What is found at an entry -/

theorem atEntries_eq : s.atEntries entries = entries.map fun e => (e.1, s.atTree e.1 e.2) := by
  induction entries with
  | nil => rfl
  | cons e es ih => rw [atEntries, atEntry, ih, List.map_cons]

theorem mem_inNameOrder {found : List (String × List FoundFile)} : f ∈ inNameOrder found ↔ ∃ e ∈ found, f ∈ e.2 := by
  simp [inNameOrder]

theorem mem_find_iff_exists : f ∈ s.find entries ↔ ∃ e ∈ entries, f ∈ s.atTree e.1 e.2 := by
  rw [find, mem_inNameOrder, atEntries_eq]
  simp

theorem atTree_folder {name : String} :
    s.atTree name (.folder entries) = if s.enters name then (s.find entries).map (·.under name) else [] := by
  rw [atTree, find]

theorem mem_under {name : String} {fs : List FoundFile} {f : FoundFile} :
    f ∈ fs.map (·.under name) ↔ ∃ way, f.way = name :: way ∧ ⟨way, f.bytes⟩ ∈ fs := by
  rw [List.mem_map]
  constructor
  · rintro ⟨g, hg, rfl⟩
    exact ⟨g.way, rfl, hg⟩
  · rintro ⟨way, hway, hmem⟩
    exact ⟨_, hmem, by rw [FoundFile.under, ← hway]⟩

/-- What is found at a tree lies below the tree's name. -/
theorem exists_way_of_mem_atTree {name : String} {t : Tree} (h : f ∈ s.atTree name t) :
    ∃ way, f.way = name :: way := by
  cases t with
  | file bytes =>
    rw [atTree] at h
    split at h
    · exact ⟨[], by rw [List.mem_singleton.mp h]⟩
    · cases h
  | folder entries =>
    rw [atTree_folder] at h
    split at h
    · obtain ⟨way, hway, -⟩ := mem_under.mp h
      exact ⟨way, hway⟩
    · cases h

/-! ## What is found -/

/-- A folder's files are those of its entries, each below the entry's name. -/
theorem mem_find_of_entries (hdistinct : (entries.map Prod.fst).Nodup)
    (hentries : ∀ e ∈ entries, ∀ f : FoundFile, f ∈ s.atTree e.1 e.2 ↔
      ∃ way, f.way = e.1 :: way ∧ e.2.at? way = some (.file f.bytes) ∧ s.Admits f.way) :
    f ∈ s.find entries ↔ (Tree.folder entries).at? f.way = some (.file f.bytes) ∧ s.Admits f.way := by
  rw [mem_find_iff_exists]
  constructor
  · rintro ⟨e, he, hf⟩
    obtain ⟨way, hway, hfile, hadmits⟩ := (hentries e he f).mp hf
    refine ⟨?_, hadmits⟩
    rw [hway, Tree.at?_folder_cons hdistinct]
    exact ⟨e.2, he, hfile⟩
  · rintro ⟨hfile, hadmits⟩
    obtain ⟨name, way, hway⟩ := List.exists_cons_of_ne_nil hadmits.ne_nil
    rw [hway, Tree.at?_folder_cons hdistinct] at hfile
    obtain ⟨t, ht, hfile⟩ := hfile
    exact ⟨(name, t), ht, (hentries _ ht f).mpr ⟨way, hway, hfile, hadmits⟩⟩

theorem mem_atTree {t : Tree} (ht : t.WellFormed) {name : String} {f : FoundFile} :
    f ∈ s.atTree name t ↔ ∃ way, f.way = name :: way ∧ t.at? way = some (.file f.bytes) ∧ s.Admits f.way := by
  induction ht generalizing name f with
  | file bytes =>
    obtain ⟨way, found⟩ := f
    rw [atTree]
    constructor
    · intro h
      split at h
      · rename_i hname
        cases List.mem_singleton.mp h
        exact ⟨[], rfl, rfl, admits_singleton.mpr hname⟩
      · cases h
    · rintro ⟨rest, rfl, hfile, hadmits⟩
      cases rest with
      | nil =>
        cases hfile
        simp [admits_singleton.mp hadmits]
      | cons => simp at hfile
  | folder distinct _ _ ih =>
    have hfind := fun f => mem_find_of_entries (s := s) (f := f) distinct fun e he f => ih e he
    rw [atTree_folder]
    constructor
    · intro h
      split at h
      · rename_i hname
        obtain ⟨way, hway, hmem⟩ := mem_under.mp h
        obtain ⟨hfile, hadmits⟩ := (hfind _).mp hmem
        exact ⟨way, hway, hfile, hway ▸ (admits_cons hadmits.ne_nil).mpr ⟨hname, hadmits⟩⟩
      · cases h
    · rintro ⟨way, hway, hfile, hadmits⟩
      have hne : way ≠ [] := by
        rintro rfl
        simp at hfile
      obtain ⟨hname, hbelow⟩ := (admits_cons hne).mp (hway ▸ hadmits)
      rw [if_pos hname]
      exact mem_under.mpr ⟨way, hway, (hfind _).mpr ⟨hfile, hbelow⟩⟩

/-- **The files found are those at the admitted ways.** -/
theorem mem_find (hw : (Tree.folder entries).WellFormed) :
    f ∈ s.find entries ↔ (Tree.folder entries).at? f.way = some (.file f.bytes) ∧ s.Admits f.way := by
  cases hw with
  | folder distinct _ below => exact mem_find_of_entries distinct fun e he f => mem_atTree (below e he)

/-! ## In which order -/

/-- Entries with distinct names are sorted strictly. -/
theorem pairwise_mergeSort_names {α : Type} {es : List (String × α)} (hdistinct : (es.map Prod.fst).Nodup) :
    (es.mergeSort fun a b => a.1 ≤ b.1).Pairwise fun a b => a.1 < b.1 := by
  have hsorted : (es.mergeSort fun a b => a.1 ≤ b.1).Pairwise fun a b => a.1 ≤ b.1 := by
    refine (List.pairwise_mergeSort (fun a b c hab hbc => ?_) (fun a b => ?_) es).imp fun h => of_decide_eq_true h
    · exact decide_eq_true ((of_decide_eq_true hab).trans (of_decide_eq_true hbc))
    · simpa using le_total a.1 b.1
  have hne : (es.mergeSort fun a b => a.1 ≤ b.1).Pairwise fun a b => a.1 ≠ b.1 := by
    have hnodup := ((List.mergeSort_perm es fun a b => a.1 ≤ b.1).map Prod.fst).nodup_iff.mpr hdistinct
    exact List.pairwise_map.mp (List.nodup_iff_pairwise_ne.mp hnodup)
  exact (hsorted.and hne).imp fun h => lt_of_le_of_ne h.1 h.2

/-- Files that lie below names in the order of these names, and in order below each of them, are in order. -/
theorem pairwise_inNameOrder {found : List (String × List FoundFile)} (hdistinct : (found.map Prod.fst).Nodup)
    (hbelow : ∀ e ∈ found, ∀ f ∈ e.2, ∃ way, f.way = e.1 :: way)
    (hsorted : ∀ e ∈ found, e.2.Pairwise fun f g => f.way < g.way) :
    (inNameOrder found).Pairwise fun f g => f.way < g.way := by
  rw [inNameOrder, List.pairwise_flatMap]
  refine ⟨fun e he => hsorted e (List.mem_mergeSort.mp he), ?_⟩
  refine (pairwise_mergeSort_names hdistinct).imp_of_mem fun {d e} hd he hlt f hf g hg => ?_
  obtain ⟨v, hv⟩ := hbelow d (List.mem_mergeSort.mp hd) f hf
  obtain ⟨w, hw⟩ := hbelow e (List.mem_mergeSort.mp he) g hg
  rw [hv, hw]
  exact List.Lex.rel hlt

theorem pairwise_find_of_entries (hdistinct : (entries.map Prod.fst).Nodup)
    (hsorted : ∀ e ∈ entries, (s.atTree e.1 e.2).Pairwise fun f g => f.way < g.way) :
    (s.find entries).Pairwise fun f g => f.way < g.way := by
  rw [find, atEntries_eq]
  refine pairwise_inNameOrder (by simpa [Function.comp_def] using hdistinct) ?_ ?_
  · simp only [List.mem_map]
    rintro _ ⟨e, -, rfl⟩ f hf
    exact exists_way_of_mem_atTree hf
  · simp only [List.mem_map]
    rintro _ ⟨e, he, rfl⟩
    exact hsorted e he

theorem pairwise_atTree {t : Tree} (ht : t.WellFormed) (name : String) :
    (s.atTree name t).Pairwise fun f g => f.way < g.way := by
  induction ht generalizing name with
  | file bytes =>
    rw [atTree]
    split <;> simp
  | folder distinct _ _ ih =>
    rw [atTree_folder]
    split
    · rw [List.pairwise_map]
      exact (pairwise_find_of_entries distinct fun e he => ih e he e.1).imp fun h => List.Lex.cons h
    · exact .nil

/-- **The files are found in the order of their ways.** -/
theorem pairwise_find (hw : (Tree.folder entries).WellFormed) :
    (s.find entries).Pairwise fun f g => f.way < g.way := by
  cases hw with
  | folder distinct _ below => exact pairwise_find_of_entries distinct fun e he => pairwise_atTree (below e he) e.1

/-! ## What the result depends on -/

theorem admits_congr {s' : RuleSearch} (hsuffix : s.suffix = s'.suffix)
    (hignored : ∀ n, n ∈ s.ignoredFolders ↔ n ∈ s'.ignoredFolders) {way : List String} :
    s.Admits way ↔ s'.Admits way := by
  have henters : ∀ n, s.enters n ↔ s'.enters n := by simp [enters, hignored]
  have haccepts : ∀ n, s.accepts n ↔ s'.accepts n := by simp [accepts, hsuffix]
  simp only [Admits, henters, haccepts]

/-- **A search finds the same in the same tree**, however its folders and the ignored names are listed. -/
theorem find_congr {s' : RuleSearch} {entries' : List (String × Tree)} (hw : (Tree.folder entries).WellFormed)
    (hlisted : Tree.Relisted (.folder entries) (.folder entries')) (hsuffix : s.suffix = s'.suffix)
    (hignored : ∀ n, n ∈ s.ignoredFolders ↔ n ∈ s'.ignoredFolders) : s.find entries = s'.find entries' := by
  have hw' := hlisted.wellFormed hw
  let before : FoundFile → FoundFile → Prop := fun f g => f.way < g.way
  have : Std.Antisymm before := ⟨fun f g hfg hgf => absurd hgf (List.lt_asymm hfg)⟩
  have : Std.Irrefl before := ⟨fun f => List.lt_irrefl f.way⟩
  refine List.Pairwise.eq_of_mem_iff (r := before) (pairwise_find hw) (pairwise_find hw') fun f => ?_
  rw [mem_find hw, mem_find hw', hlisted.at?_eq_file_iff hw, admits_congr hsuffix hignored]

end RuleSearch

namespace Project

/-- There are rule files to list wherever there is a folder. -/
theorem ruleFiles_eq_ok_iff {d : Disk} {root : Path} {search : RuleSearch} {found : List FoundFile} :
    ruleFiles d root search = .ok found ↔
      ∃ entries, d.get root = .ok (.folder entries) ∧ search.find entries = found := by
  rw [ruleFiles, entriesAt]
  cases d.get root with
  | error e => simp [Except.map]
  | ok t => cases t <;> simp [Except.map]

/-- **The rule files of a project** are the files below its root whose names end in the suffix, but for those that a
hidden or an ignored folder holds. They are listed in the order of their ways, each once, whatever the order in which
folders list their entries and the settings their ignored names. -/
theorem ruleFiles_exact {d : Disk} {root : Path} {entries : List (String × Tree)} (search : RuleSearch)
    (hw : (Tree.folder entries).WellFormed) (hroot : d.get root = .ok (.folder entries)) :
    ∃ found, ruleFiles d root search = .ok found ∧
      (∀ way bytes, ⟨way, bytes⟩ ∈ found ↔ (Tree.folder entries).at? way = some (.file bytes) ∧
        ∃ folders name, way = folders ++ [name] ∧
          (∀ n ∈ folders, ¬ ['.'] <+: n.toList ∧ n ∉ search.ignoredFolders) ∧
          search.suffix.toList <:+ name.toList) ∧
      found.Pairwise (fun f g => f.way < g.way) ∧
      ∀ (d' : Disk) (root' : Path) (entries' : List (String × Tree)) (search' : RuleSearch),
        d'.get root' = .ok (.folder entries') → Tree.Relisted (.folder entries) (.folder entries') →
        search.suffix = search'.suffix → (∀ n, n ∈ search.ignoredFolders ↔ n ∈ search'.ignoredFolders) →
        ruleFiles d' root' search' = .ok found := by
  refine ⟨search.find entries, ruleFiles_eq_ok_iff.mpr ⟨_, hroot, rfl⟩, fun way bytes => ?_,
    RuleSearch.pairwise_find hw, ?_⟩
  · rw [RuleSearch.mem_find hw]
    simp only [RuleSearch.Admits, RuleSearch.enters_iff, RuleSearch.accepts_iff]
  · intro d' root' entries' search' hroot' hlisted hsuffix hignored
    exact ruleFiles_eq_ok_iff.mpr ⟨_, hroot', (RuleSearch.find_congr hw hlisted hsuffix hignored).symm⟩

/-- A folder whose names in order are not those of its rule files in order, with a hidden and an ignored folder. -/
def crowdedFolder : List (String × Tree) :=
  [("b.rux", .file ⟨#[]⟩), ("node_modules", .folder [("a.rux", .file ⟨#[]⟩)]),
   ("b", .folder [("z.rux", .file ⟨#[]⟩), ("notes.txt", .file ⟨#[]⟩), ("a.rux", .file ⟨#[]⟩)]),
   (".git", .folder [("a.rux", .file ⟨#[]⟩)])]

theorem ruleFiles_crowdedFolder : (Tree.folder crowdedFolder).WellFormed ∧
    Disk.get ⟨.folder crowdedFolder, []⟩ ⟨.root, []⟩ = .ok (.folder crowdedFolder) ∧
    Tree.Relisted (.folder crowdedFolder) (.folder crowdedFolder.reverse) ∧
    ∃ found, ruleFiles ⟨.folder crowdedFolder, []⟩ ⟨.root, []⟩ ⟨".rux", ["node_modules"]⟩ = .ok found ∧
      ⟨["b", "z.rux"], ⟨#[]⟩⟩ ∈ found ∧ ⟨[".git", "a.rux"], ⟨#[]⟩⟩ ∉ found ∧
      ruleFiles ⟨.folder crowdedFolder.reverse, []⟩ ⟨.root, []⟩ ⟨".rux", ["node_modules", "node_modules"]⟩ =
        .ok found := by
  have hw : (Tree.folder crowdedFolder).WellFormed := by decide
  have hlisted : Tree.Relisted (.folder crowdedFolder) (.folder crowdedFolder.reverse) :=
    .of_perm hw crowdedFolder.reverse_perm.symm
  have hroot : Disk.get ⟨.folder crowdedFolder, []⟩ ⟨.root, []⟩ = .ok (.folder crowdedFolder) := rfl
  refine ⟨hw, hroot, hlisted, ?_⟩
  obtain ⟨found, hfound, hexact, -, hsame⟩ := ruleFiles_exact ⟨".rux", ["node_modules"]⟩ hw hroot
  refine ⟨found, hfound, ?_, ?_, hsame _ _ _ _ rfl hlisted rfl (by simp)⟩
  · exact (hexact _ _).mpr ⟨rfl, ["b"], "z.rux", rfl, by decide, by decide⟩
  · intro hmem
    obtain ⟨-, folders, name, hway, hfolders, -⟩ := (hexact _ _).mp hmem
    have hdrop : [".git"] = folders := by simpa using congrArg List.dropLast hway
    exact (hfolders ".git" (by simp [← hdrop])).1 (by decide)

end Project

end Conformance
