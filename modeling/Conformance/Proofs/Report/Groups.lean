import Conformance.Report.Basic
import Mathlib.Data.List.Induction
import Mathlib.Data.List.Sort

/-!
# Violations by file

A grouping of violations has one group for each file that occurs, in the order of their first violations, and a group is
what the violations have of its file. One violation more keeps the groups a grouping (`IsGrouping.add`), so the
violations by file are one (`isGrouping_byFile`), and the only one (`isGrouping_iff`). Nothing is lost and nothing
is doubled by it (`perm_flatMap_byFile`).
-/

namespace Conformance.Report

/-- The first violation of `file` stands before that of `file'`. -/
def FirstBefore (vs : List Violation) (file file' : String) : Prop :=
  (vs.map (·.file)).idxOf file < (vs.map (·.file)).idxOf file'

/-- The groups are the violations by file. -/
structure IsGrouping (vs : List Violation) (groups : List (String × List Violation)) : Prop where
  /-- The files of the groups are those that occur. -/
  files : ∀ file, file ∈ groups.map Prod.fst ↔ file ∈ vs.map (·.file)
  /-- They stand in the order of their first violations. -/
  inOrder : (groups.map Prod.fst).Pairwise (FirstBefore vs)
  /-- A group is what the violations have of its file. -/
  members : ∀ g ∈ groups, g.2 = vs.filter (·.file = g.1)

section FirstBefore

variable {vs : List Violation} {file file' : String}

theorem firstBefore_irrefl (file : String) : ¬ FirstBefore vs file file := Nat.lt_irrefl _

theorem FirstBefore.asymm (h : FirstBefore vs file file') : ¬ FirstBefore vs file' file := Nat.lt_asymm h

/-- What follows does not change which file is first. -/
theorem firstBefore_append (hfile : file ∈ vs.map (·.file)) (hfile' : file' ∈ vs.map (·.file)) (ws : List Violation) :
    FirstBefore (vs ++ ws) file file' ↔ FirstBefore vs file file' := by
  rw [FirstBefore, List.map_append, List.idxOf_append_of_mem hfile, List.idxOf_append_of_mem hfile', FirstBefore]

/-- The files that occur are before a new one. -/
theorem firstBefore_concat {v : Violation} (hfile : file ∈ vs.map (·.file)) (hv : v.file ∉ vs.map (·.file)) :
    FirstBefore (vs ++ [v]) file v.file := by
  rw [FirstBefore, List.map_append, List.idxOf_append_of_mem hfile, List.idxOf_append_of_notMem hv]
  exact Nat.lt_add_right _ (List.idxOf_lt_length_of_mem hfile)

end FirstBefore

section AddToGroup

variable {v : Violation} {groups : List (String × List Violation)}

/-- A violation of a new file is a group of its own, the last one. -/
theorem addToGroup_of_notMem (h : v.file ∉ groups.map Prod.fst) : addToGroup v groups = groups ++ [(v.file, [v])] := by
  induction groups with
  | nil => rfl
  | cons g groups ih =>
    simp only [List.map_cons, List.mem_cons, not_or] at h
    rw [addToGroup, if_neg (Ne.symm h.1), ih h.2, List.cons_append]

/-- Any other violation comes last in the group of its file. -/
theorem addToGroup_of_mem (hnodup : (groups.map Prod.fst).Nodup) (h : v.file ∈ groups.map Prod.fst) :
    addToGroup v groups = groups.map fun g => (g.1, g.2 ++ [v].filter (·.file = g.1)) := by
  have hother : ∀ g : String × List Violation, g.1 ≠ v.file → (g.1, g.2 ++ [v].filter (·.file = g.1)) = g := by
    intro g hg
    simp [hg.symm]
  induction groups with
  | nil => cases h
  | cons g groups ih =>
    obtain ⟨hnew, hnodup⟩ := List.nodup_cons.mp hnodup
    rw [addToGroup, List.map_cons]
    by_cases hg : g.1 = v.file
    · -- the file has no second group
      have hrest : ∀ g' ∈ groups, g'.1 ≠ v.file := fun g' hg' heq =>
        hnew (hg.trans heq.symm ▸ List.mem_map_of_mem hg')
      rw [if_pos hg, List.map_congr_left fun g' hg' => hother g' (hrest g' hg'), List.map_id']
      simp [hg]
    · rw [if_neg hg, hother g hg, ih hnodup ((List.mem_cons.mp h).resolve_left (Ne.symm hg))]

/-- A violation more is one more in the groups. -/
theorem perm_flatMap_addToGroup (v : Violation) (groups : List (String × List Violation)) :
    ((addToGroup v groups).flatMap Prod.snd).Perm (groups.flatMap Prod.snd ++ [v]) := by
  induction groups with
  | nil => exact List.Perm.refl [v]
  | cons g groups ih =>
    rw [addToGroup]
    split
    · rw [List.flatMap_cons, List.flatMap_cons, List.append_assoc, List.append_assoc]
      exact List.perm_append_comm.append_left g.2
    · rw [List.flatMap_cons, List.flatMap_cons, List.append_assoc]
      exact ih.append_left g.2

end AddToGroup

namespace IsGrouping

variable {vs : List Violation} {groups : List (String × List Violation)}

theorem nodup (h : IsGrouping vs groups) : (groups.map Prod.fst).Nodup := by
  rw [List.nodup_iff_pairwise_ne]
  refine h.inOrder.imp fun {file _} hbefore => ?_
  rintro rfl
  exact firstBefore_irrefl file hbefore

/-- The group of a file that occurs is not empty. -/
theorem ne_nil (h : IsGrouping vs groups) {g : String × List Violation} (hg : g ∈ groups) : g.2 ≠ [] := by
  obtain ⟨v, hv, hfile⟩ := List.mem_map.mp ((h.files g.1).mp (List.mem_map_of_mem hg))
  rw [h.members g hg]
  exact List.ne_nil_of_mem (List.mem_filter.mpr ⟨hv, decide_eq_true hfile⟩)

/-- The files of the groups keep their order if violations follow. -/
theorem inOrder_append (h : IsGrouping vs groups) (ws : List Violation) :
    (groups.map Prod.fst).Pairwise (FirstBefore (vs ++ ws)) :=
  h.inOrder.imp_of_mem fun hfile hfile' =>
    (firstBefore_append ((h.files _).mp hfile) ((h.files _).mp hfile') ws).mpr

/-- A violation of a file that has a group ends that group. -/
theorem add_of_mem (h : IsGrouping vs groups) {v : Violation} (hv : v.file ∈ groups.map Prod.fst) :
    IsGrouping (vs ++ [v]) (addToGroup v groups) := by
  have hsame : (addToGroup v groups).map Prod.fst = groups.map Prod.fst := by
    rw [addToGroup_of_mem h.nodup hv, List.map_map]
    rfl
  constructor
  case files =>
    intro file
    rw [hsame, h.files file, List.map_append, List.mem_append]
    refine (or_iff_left_of_imp fun hlast => ?_).symm
    rw [List.mem_singleton.mp hlast]
    exact (h.files v.file).mp hv
  case inOrder =>
    rw [hsame]
    exact h.inOrder_append [v]
  case members =>
    rw [addToGroup_of_mem h.nodup hv, List.forall_mem_map]
    intro g hg
    rw [h.members g hg, List.filter_append]

/-- A violation of a new file has the last group. -/
theorem add_of_notMem (h : IsGrouping vs groups) {v : Violation} (hv : v.file ∉ groups.map Prod.fst) :
    IsGrouping (vs ++ [v]) (addToGroup v groups) := by
  have hnew : v.file ∉ vs.map (·.file) := fun hmem => hv ((h.files v.file).mpr hmem)
  rw [addToGroup_of_notMem hv]
  constructor
  case files =>
    intro file
    rw [List.map_append, List.map_append, List.mem_append, List.mem_append, h.files file]
    rfl
  case inOrder =>
    rw [List.map_append, List.pairwise_append]
    refine ⟨h.inOrder_append [v], List.pairwise_singleton _ _, fun file hfile file' hfile' => ?_⟩
    rw [List.mem_singleton.mp hfile']
    exact firstBefore_concat ((h.files file).mp hfile) hnew
  case members =>
    intro g hg
    rcases List.mem_append.mp hg with hg | hg
    · have hne : v.file ≠ g.1 := fun heq => hv (heq ▸ List.mem_map_of_mem hg)
      simp [h.members g hg, hne]
    · obtain rfl := List.mem_singleton.mp hg
      have hnone : vs.filter (·.file = v.file) = [] := by
        rw [List.filter_eq_nil_iff]
        exact fun w hw heq => hnew (of_decide_eq_true heq ▸ List.mem_map_of_mem hw)
      simp [hnone]

/-- **One violation more keeps the groups a grouping.** -/
theorem add (h : IsGrouping vs groups) (v : Violation) : IsGrouping (vs ++ [v]) (addToGroup v groups) := by
  by_cases hv : v.file ∈ groups.map Prod.fst
  · exact h.add_of_mem hv
  · exact h.add_of_notMem hv

end IsGrouping

/-! ## All violations -/

variable (vs : List Violation)

theorem byFile_concat (v : Violation) : byFile (vs ++ [v]) = addToGroup v (byFile vs) := List.foldl_concat ..

/-- **The violations by file are a grouping.** -/
theorem isGrouping_byFile : IsGrouping vs (byFile vs) := by
  induction vs using List.reverseRecOn with
  | nil => exact ⟨fun _ => Iff.rfl, .nil, fun _ h => absurd h List.not_mem_nil⟩
  | append_singleton vs v ih =>
    rw [byFile_concat]
    exact ih.add v

/-- Nothing is lost and nothing is doubled. -/
theorem perm_flatMap_byFile : ((byFile vs).flatMap Prod.snd).Perm vs := by
  induction vs using List.reverseRecOn with
  | nil => exact List.Perm.nil
  | append_singleton vs v ih =>
    rw [byFile_concat]
    exact (perm_flatMap_addToGroup v _).trans (ih.append_right [v])

/-- **The violations by file are parted by their files, in order**: each file that occurs has one group, the files stand
in the order of their first violations, a group is all that the violations have of its file, in their order, and no group
is empty. Together the groups are the violations. -/
theorem byFile_parts :
    ((byFile vs).map Prod.fst).Nodup ∧
      (∀ file, file ∈ (byFile vs).map Prod.fst ↔ ∃ v ∈ vs, v.file = file) ∧
      ((byFile vs).map Prod.fst).Pairwise (FirstBefore vs) ∧
      (∀ g ∈ byFile vs, g.2 = vs.filter (·.file = g.1) ∧ g.2 ≠ []) ∧
      ((byFile vs).flatMap Prod.snd).Perm vs := by
  have h := isGrouping_byFile vs
  refine ⟨h.nodup, fun file => ?_, h.inOrder, fun g hg => ⟨h.members g hg, h.ne_nil hg⟩, perm_flatMap_byFile vs⟩
  rw [h.files file, List.mem_map]

/-- Violations of one file before and behind a violation of another. -/
def interleaved : List Violation :=
  [{ file := "b.ts", moduleName := "", category := .missing, message := "first" },
    { file := "a.ts", moduleName := "", category := .operation, message := "second" },
    { file := "b.ts", moduleName := "", category := .operation, message := "third" }]

theorem byFile_parts_interleaved :
    ("b.ts", interleaved.filter (·.file = "b.ts")) ∈ byFile interleaved ∧
      interleaved.filter (·.file = "b.ts") ≠ [] := by
  have hgroups : (byFile interleaved).head? = some ("b.ts", interleaved.filter (·.file = "b.ts")) := by decide +kernel
  have hmem := List.mem_of_head? hgroups
  exact ⟨hmem, ((byFile_parts interleaved).2.2.2.1 _ hmem).2⟩

example : (byFile interleaved).map (fun g => (g.1, g.2.map (·.message))) =
    [("b.ts", ["first", "third"]), ("a.ts", ["second"])] := by decide +kernel

variable {vs}

/-- A grouping is known from the order of its files. -/
theorem IsGrouping.eq_map {groups : List (String × List Violation)} (h : IsGrouping vs groups) :
    groups = (groups.map Prod.fst).map fun file => (file, vs.filter (·.file = file)) := by
  have hgroup : ∀ g ∈ groups, (g.1, vs.filter (·.file = g.1)) = g := fun g hg => by rw [← h.members g hg]
  rw [List.map_map]
  exact ((List.map_congr_left hgroup).trans (List.map_id' groups)).symm

/-- **There is one grouping only.** -/
theorem isGrouping_iff {groups : List (String × List Violation)} : IsGrouping vs groups ↔ groups = byFile vs := by
  constructor
  · intro h
    have h' := isGrouping_byFile vs
    have : Std.Irrefl (FirstBefore vs) := ⟨firstBefore_irrefl⟩
    have : Std.Antisymm (FirstBefore vs) := ⟨fun _ _ hbefore hbefore' => absurd hbefore' hbefore.asymm⟩
    have hfiles : groups.map Prod.fst = (byFile vs).map Prod.fst :=
      h.inOrder.eq_of_mem_iff h'.inOrder fun file => (h.files file).trans (h'.files file).symm
    rw [h.eq_map, h'.eq_map, hfiles]
  · rintro rfl
    exact isGrouping_byFile vs

end Conformance.Report
