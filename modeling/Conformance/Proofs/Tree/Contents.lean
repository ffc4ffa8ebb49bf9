import Conformance.Disk

/-!
# What lies in a file tree

`at?` gives what lies at the end of a way down a tree. A tree is well formed if a file system can hold it: the names
in a folder are distinct, and none holds a slash. In such a tree a way leads to one thing at most, whatever the order
in which folders list their entries (`Relisted.at?_eq_file_iff`), and what paths of a disk lead to is well formed as
well (`Disk.wellFormed_get`).
-/

namespace Conformance

namespace Tree

/-- What lies at the end of a way down. -/
def at? : Tree → List String → Option Tree
  | t, [] => some t
  | file _, _ :: _ => none
  | folder entries, name :: names => (lookup? name entries).bind (at? · names)

/-- The names in every folder are distinct, and none holds a slash. -/
inductive WellFormed : Tree → Prop
  | file (bytes : ByteArray) : WellFormed (file bytes)
  | folder {entries : List (String × Tree)} (distinct : (entries.map Prod.fst).Nodup)
      (slashless : ∀ e ∈ entries, '/' ∉ e.1.toList) (below : ∀ e ∈ entries, WellFormed e.2) :
      WellFormed (folder entries)

/-! ## Deciding well-formedness -/

mutual

/-- Whether a tree is well formed. -/
def isWellFormed : Tree → Bool
  | .file _ => true
  | .folder entries => decide (entries.map Prod.fst).Nodup && areWellFormed entries

/-- Whether an entry has a name without a slash and a well-formed tree. -/
def isWellFormedEntry : String × Tree → Bool
  | (name, t) => !name.toList.contains '/' && t.isWellFormed

/-- Whether all entries are so. -/
def areWellFormed : List (String × Tree) → Bool
  | [] => true
  | e :: es => isWellFormedEntry e && areWellFormed es

end

theorem areWellFormed_iff {entries : List (String × Tree)} :
    areWellFormed entries ↔ ∀ e ∈ entries, '/' ∉ e.1.toList ∧ e.2.isWellFormed := by
  induction entries with
  | nil => simp [areWellFormed]
  | cons e es ih =>
    obtain ⟨name, t⟩ := e
    simp only [areWellFormed, isWellFormedEntry, Bool.and_eq_true, ih, List.forall_mem_cons]
    simp

theorem isWellFormed_folder {entries : List (String × Tree)} : (folder entries).isWellFormed ↔
    (entries.map Prod.fst).Nodup ∧ ∀ e ∈ entries, '/' ∉ e.1.toList ∧ e.2.isWellFormed := by
  rw [isWellFormed, Bool.and_eq_true, decide_eq_true_iff, areWellFormed_iff]

theorem wellFormed_of_isWellFormed : ∀ t : Tree, t.isWellFormed → t.WellFormed
  | .file bytes, _ => .file bytes
  | .folder entries, h =>
    have hentries := isWellFormed_folder.mp h
    .folder hentries.1 (fun e he => (hentries.2 e he).1) fun e he => wellFormed_of_isWellFormed e.2 (hentries.2 e he).2
termination_by t => sizeOf t
decreasing_by
  have hentry := List.sizeOf_lt_of_mem he
  obtain ⟨name, t⟩ := e
  simp only [folder.sizeOf_spec, Prod.mk.sizeOf_spec] at hentry ⊢
  omega

theorem isWellFormed_iff {t : Tree} : t.isWellFormed ↔ t.WellFormed := by
  refine ⟨wellFormed_of_isWellFormed t, fun h => ?_⟩
  induction h with
  | file => rfl
  | folder distinct slashless _ ih => exact isWellFormed_folder.mpr ⟨distinct, fun e he => ⟨slashless e he, ih e he⟩⟩

instance (t : Tree) : Decidable t.WellFormed := decidable_of_iff _ isWellFormed_iff

/-! ## Entries -/

section Entries

variable {name : String} {t : Tree} {entries : List (String × Tree)}

theorem mem_of_lookup? (h : lookup? name entries = some t) : (name, t) ∈ entries := by
  induction entries with
  | nil => simp [lookup?] at h
  | cons e es ih =>
    rw [lookup?] at h
    split at h
    · rename_i hname
      obtain rfl := hname
      obtain rfl := Option.some.inj h
      exact List.mem_cons_self
    · exact List.mem_cons_of_mem _ (ih h)

theorem lookup?_of_mem (hdistinct : (entries.map Prod.fst).Nodup) (h : (name, t) ∈ entries) :
    lookup? name entries = some t := by
  induction entries with
  | nil => cases h
  | cons e es ih =>
    obtain ⟨hfresh, hdistinct⟩ := List.nodup_cons.mp hdistinct
    rcases List.mem_cons.mp h with rfl | h
    · simp [lookup?]
    · have hne : e.1 ≠ name := fun heq => hfresh (heq ▸ List.mem_map_of_mem h)
      simpa [lookup?, hne] using ih hdistinct h

/-- Where names are distinct, an entry is found under its name. -/
theorem lookup?_eq_some_iff (hdistinct : (entries.map Prod.fst).Nodup) :
    lookup? name entries = some t ↔ (name, t) ∈ entries :=
  ⟨mem_of_lookup?, lookup?_of_mem hdistinct⟩

/-- A name in a folder belongs to one entry only. -/
theorem eq_of_mem {t' : Tree} (hdistinct : (entries.map Prod.fst).Nodup) (h : (name, t) ∈ entries)
    (h' : (name, t') ∈ entries) : t = t' :=
  Option.some.inj ((lookup?_of_mem hdistinct h).symm.trans (lookup?_of_mem hdistinct h'))

theorem mem_insert {e : String × Tree} (h : e ∈ insert name t entries) : e = (name, t) ∨ e ∈ entries := by
  induction entries with
  | nil => exact .inl (List.mem_singleton.mp h)
  | cons d es ih =>
    rw [insert] at h
    split at h
    · rcases List.mem_cons.mp h with rfl | h
      · exact .inl rfl
      · exact .inr (List.mem_cons_of_mem _ h)
    · rcases List.mem_cons.mp h with rfl | h
      · exact .inr List.mem_cons_self
      · exact (ih h).imp_right (List.mem_cons_of_mem _)

theorem nodup_insert (h : (entries.map Prod.fst).Nodup) : ((insert name t entries).map Prod.fst).Nodup := by
  induction entries with
  | nil => simp [insert]
  | cons e es ih =>
    obtain ⟨hfresh, hes⟩ := List.nodup_cons.mp h
    rw [insert]
    split
    · rename_i hname
      exact List.nodup_cons.mpr ⟨hname ▸ hfresh, hes⟩
    · rename_i hname
      refine List.nodup_cons.mpr ⟨fun hmem => ?_, ih hes⟩
      obtain ⟨d, hd, heq⟩ := List.mem_map.mp hmem
      rcases mem_insert hd with rfl | hd
      · exact hname heq.symm
      · exact hfresh (heq ▸ List.mem_map_of_mem hd)

/-- An entry more, or another tree under a name, keeps a folder well formed. -/
theorem WellFormed.insert (h : (Tree.folder entries).WellFormed) (hname : '/' ∉ name.toList) (ht : t.WellFormed) :
    (Tree.folder (Tree.insert name t entries)).WellFormed := by
  cases h with
  | folder distinct slashless below =>
    refine .folder (nodup_insert distinct) (fun e he => ?_) (fun e he => ?_)
    · rcases mem_insert he with rfl | he
      · exact hname
      · exact slashless e he
    · rcases mem_insert he with rfl | he
      · exact ht
      · exact below e he

end Entries

/-! ## Ways -/

@[simp] theorem at?_nil (t : Tree) : t.at? [] = some t := by
  cases t <;> rfl

@[simp] theorem at?_file_cons (bytes : ByteArray) (name : String) (names : List String) :
    (file bytes).at? (name :: names) = none := rfl

theorem at?_folder_cons {entries : List (String × Tree)} (hdistinct : (entries.map Prod.fst).Nodup) {name : String}
    {names : List String} {x : Tree} :
    (folder entries).at? (name :: names) = some x ↔ ∃ t, (name, t) ∈ entries ∧ t.at? names = some x := by
  rw [at?, Option.bind_eq_some_iff]
  exact exists_congr fun t => and_congr_left' (lookup?_eq_some_iff hdistinct)

/-- No name on a way down a well-formed tree holds a slash. -/
theorem WellFormed.slashless_of_at? {t x : Tree} (h : t.WellFormed) {names : List String}
    (hx : t.at? names = some x) : ∀ name ∈ names, '/' ∉ name.toList := by
  induction h generalizing names with
  | file bytes =>
    cases names with
    | nil => simp
    | cons => simp at hx
  | folder distinct slashless _ ih =>
    cases names with
    | nil => simp
    | cons name names =>
      obtain ⟨t, ht, hx⟩ := (at?_folder_cons distinct).mp hx
      exact List.forall_mem_cons.mpr ⟨slashless _ ht, ih _ ht hx⟩

/-! ## The order of listing -/

/-- The same tree up to the order in which its folders list their entries. -/
inductive Relisted : Tree → Tree → Prop
  | file (bytes : ByteArray) : Relisted (file bytes) (file bytes)
  | folder {es es' : List (String × Tree)} (names : (es.map Prod.fst).Perm (es'.map Prod.fst))
      (below : ∀ name t t', (name, t) ∈ es → (name, t') ∈ es' → Relisted t t') : Relisted (folder es) (folder es')

section Relisted

variable {t t' : Tree}

/-- Each entry of the one listing has its counterpart in the other. -/
theorem exists_mem_of_names {es es' : List (String × Tree)} (names : (es.map Prod.fst).Perm (es'.map Prod.fst))
    {e : String × Tree} (he : e ∈ es) : ∃ t', (e.1, t') ∈ es' := by
  obtain ⟨d, hd, hname⟩ := List.mem_map.mp (names.subset (List.mem_map_of_mem he))
  exact ⟨d.2, hname ▸ hd⟩

theorem Relisted.wellFormed (h : Relisted t t') (ht : t.WellFormed) : t'.WellFormed := by
  induction h with
  | file bytes => exact .file bytes
  | folder names _ ih =>
    cases ht with
    | folder distinct slashless below =>
      refine .folder (names.nodup_iff.mp distinct) (fun e he => ?_) (fun e he => ?_)
      · obtain ⟨t, ht⟩ := exists_mem_of_names names.symm he
        exact slashless (e.1, t) ht
      · obtain ⟨t, ht⟩ := exists_mem_of_names names.symm he
        exact ih e.1 t e.2 ht he (below _ ht)

theorem WellFormed.relisted (h : t.WellFormed) : Relisted t t := by
  induction h with
  | file bytes => exact .file bytes
  | folder distinct _ _ ih =>
    exact .folder (.refl _) fun name t t' ht ht' => eq_of_mem distinct ht ht' ▸ ih _ ht

/-- Listing one folder in another order lists the tree in another order. -/
theorem Relisted.of_perm {es es' : List (String × Tree)} (h : (Tree.folder es).WellFormed) (hperm : es.Perm es') :
    Relisted (Tree.folder es) (Tree.folder es') := by
  cases h with
  | folder distinct _ below =>
    refine .folder (hperm.map _) fun name t t' ht ht' => ?_
    exact eq_of_mem distinct ht (hperm.symm.subset ht') ▸ (below _ ht).relisted

/-- **The same files lie at the same ways**, however the folders list them. -/
theorem Relisted.at?_eq_file_iff (h : Relisted t t') (ht : t.WellFormed) {way : List String} {bytes : ByteArray} :
    t.at? way = some (Tree.file bytes) ↔ t'.at? way = some (Tree.file bytes) := by
  induction h generalizing way with
  | file => rfl
  | folder names below ih =>
    have ht' := (Relisted.folder names below).wellFormed ht
    cases ht with
    | folder distinct _ wf =>
      cases ht' with
      | folder distinct' _ _ =>
        cases way with
        | nil => simp
        | cons name way =>
          rw [at?_folder_cons distinct, at?_folder_cons distinct']
          constructor
          · rintro ⟨t, ht, hfile⟩
            obtain ⟨t', ht'⟩ := exists_mem_of_names names ht
            exact ⟨t', ht', (ih name t t' ht ht' (wf _ ht)).mp hfile⟩
          · rintro ⟨t', ht', hfile⟩
            obtain ⟨t, ht⟩ := exists_mem_of_names names.symm ht'
            exact ⟨t, ht, (ih name t t' ht ht' (wf _ ht)).mpr hfile⟩

end Relisted

/-! ## Places -/

/-- What lies at a place is well formed, and so are the folders around it. -/
structure Place.WellFormed (p : Place) : Prop where
  here : p.here.WellFormed
  above : ∀ f ∈ p.above, '/' ∉ f.1.toList ∧ (folder f.2).WellFormed

namespace Place

variable {p q : Place}

theorem WellFormed.up (h : p.WellFormed) : p.up.WellFormed := by
  obtain ⟨t, above⟩ := p
  cases above with
  | nil => exact h
  | cons f above =>
    obtain ⟨hf, habove⟩ := List.forall_mem_cons.mp h.above
    exact ⟨hf.2.insert hf.1 h.here, habove⟩

theorem WellFormed.enter {name : String} (h : p.WellFormed) (hq : p.enter name = .ok q) : q.WellFormed := by
  obtain ⟨t, above⟩ := p
  cases t with
  | file => simp [Place.enter] at hq
  | folder entries =>
    simp only [Place.enter] at hq
    split at hq
    · cases hq
      exact h.up
    · split at hq
      · cases hq
      · cases hfound : lookup? name entries with
        | none => simp [hfound] at hq
        | some t =>
          simp only [hfound, Except.ok.injEq] at hq
          subst hq
          have hmem := mem_of_lookup? hfound
          cases h.here with
          | folder distinct slashless below =>
            refine ⟨below _ hmem, List.forall_mem_cons.mpr ⟨⟨slashless _ hmem, h.here⟩, h.above⟩⟩

theorem WellFormed.follow {names : List String} (h : p.WellFormed) (hq : p.follow names = .ok q) : q.WellFormed := by
  induction names generalizing p with
  | nil =>
    cases hq
    exact h
  | cons name names ih =>
    rw [Place.follow, List.foldlM_cons] at hq
    cases hnext : p.enter name with
    | error e => simp [hnext, bind, Except.bind] at hq
    | ok next =>
      rw [hnext] at hq
      exact ih (h.enter hnext) hq

end Place

end Tree

/-- **What a path of a well-formed disk leads to is well formed.** -/
theorem Disk.wellFormed_get {d : Disk} {p : Path} {t : Tree} (hd : d.root.WellFormed) (h : d.get p = .ok t) :
    t.WellFormed := by
  rw [Disk.get, Disk.follow] at h
  split at h
  · cases h
  · split at h
    · cases h
    · cases hplace : (Tree.Place.mk d.root []).follow (d.absolute p) with
      | error e => simp [hplace, Except.map] at h
      | ok place =>
        simp only [hplace, Except.map, Except.ok.injEq] at h
        have hroot : (Tree.Place.mk d.root []).WellFormed := ⟨hd, by simp⟩
        exact h ▸ (hroot.follow hplace).here

end Conformance
