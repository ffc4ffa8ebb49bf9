import Conformance.Disk
import Mathlib.Data.List.Forall2

/-!
# Trees of one shape

Two trees are alike if they have the same names and their files are related, one by one. Then every path leads to the
same in both: to related files, to folders that are alike, or to the same error (`Disk.Alike.get`, `Disk.Alike.file?`).
-/

namespace Conformance

/-! ## Results -/

/-- Both results are the same error, or both are values that are related. -/
inductive Matching {ε α β : Type} (P : α → β → Prop) : Except ε α → Except ε β → Prop
  | error (e : ε) : Matching P (.error e) (.error e)
  | ok {a : α} {b : β} (h : P a b) : Matching P (.ok a) (.ok b)

namespace Matching

variable {ε α β γ δ : Type} {P : α → β → Prop} {Q : γ → δ → Prop} {x : Except ε α} {y : Except ε β}

theorem bind {f : α → Except ε γ} {g : β → Except ε δ} (h : Matching P x y)
    (hfg : ∀ a b, P a b → Matching Q (f a) (g b)) : Matching Q (x >>= f) (y >>= g) := by
  cases h with
  | error e => exact .error e
  | ok hab => exact hfg _ _ hab

theorem map {f : α → γ} {g : β → δ} (h : Matching P x y) (hfg : ∀ a b, P a b → Q (f a) (g b)) :
    Matching Q (x.map f) (y.map g) := by
  cases h with
  | error e => exact .error e
  | ok hab => exact .ok (hfg _ _ hab)

end Matching

namespace Tree

variable {R : ByteArray → ByteArray → Prop}

mutual

/-- The same tree up to what its files hold. -/
inductive Alike (R : ByteArray → ByteArray → Prop) : Tree → Tree → Prop
  | file {bytes bytes' : ByteArray} (h : R bytes bytes') : Alike R (.file bytes) (.file bytes')
  | folder {es es' : List (String × Tree)} (h : AlikeEntries R es es') : Alike R (.folder es) (.folder es')

/-- The same entries up to what the files below them hold. -/
inductive AlikeEntries (R : ByteArray → ByteArray → Prop) : List (String × Tree) → List (String × Tree) → Prop
  | nil : AlikeEntries R [] []
  | cons {t t' : Tree} {es es' : List (String × Tree)} (name : String) (ht : Alike R t t')
      (hes : AlikeEntries R es es') : AlikeEntries R ((name, t) :: es) ((name, t') :: es')

end

/-! ## Entries -/

section Entries

variable {es es' : List (String × Tree)}

theorem AlikeEntries.lookup? (h : AlikeEntries R es es') (name : String) :
    Option.Rel (Alike R) (lookup? name es) (lookup? name es') := by
  induction es generalizing es' with
  | nil =>
    cases h with
    | nil => exact .none
  | cons e es ih =>
    cases h with
    | cons n ht hes =>
      rw [Tree.lookup?, Tree.lookup?]
      by_cases hname : n = name
      · simpa [hname] using Option.Rel.some ht
      · simpa [hname] using ih hes

theorem AlikeEntries.insert {name : String} {t t' : Tree} (h : AlikeEntries R es es') (ht : Alike R t t') :
    AlikeEntries R (insert name t es) (insert name t' es') := by
  induction es generalizing es' with
  | nil =>
    cases h with
    | nil => exact .cons name ht .nil
  | cons e es ih =>
    cases h with
    | cons n hn hes =>
      rw [Tree.insert, Tree.insert]
      by_cases hname : n = name
      · simpa [hname] using AlikeEntries.cons name ht hes
      · simpa [hname] using AlikeEntries.cons n hn (ih hes)

end Entries

/-! ## Places -/

namespace Place

/-- The same place in trees that are alike. -/
structure Alike (R : ByteArray → ByteArray → Prop) (p p' : Place) : Prop where
  here : Tree.Alike R p.here p'.here
  above : List.Forall₂ (fun f f' => f.1 = f'.1 ∧ AlikeEntries R f.2 f'.2) p.above p'.above

variable {p p' : Place}

theorem Alike.up (h : p.Alike R p') : p.up.Alike R p'.up := by
  obtain ⟨t, above⟩ := p
  obtain ⟨t', above'⟩ := p'
  obtain ⟨hhere, habove⟩ := h
  cases habove with
  | nil => exact ⟨hhere, .nil⟩
  | @cons f f' above above' hf habove =>
    obtain ⟨hname, hentries⟩ := hf
    refine ⟨?_, habove⟩
    rw [Place.up, Place.up, ← hname]
    exact .folder (hentries.insert hhere)

theorem Alike.enter (h : p.Alike R p') (name : String) :
    Matching (Place.Alike R) (p.enter name) (p'.enter name) := by
  have hup := h.up
  obtain ⟨t, above⟩ := p
  obtain ⟨t', above'⟩ := p'
  obtain ⟨hhere, habove⟩ := h
  cases hhere with
  | file => exact .error _
  | @folder es es' hes =>
    simp only [Place.enter]
    split
    · exact .ok hup
    · split
      · exact .error _
      · have hfound := hes.lookup? name
        generalize lookup? name es = t? at hfound
        generalize lookup? name es' = t'? at hfound
        cases hfound with
        | none => exact .error _
        | some ht => exact .ok ⟨ht, .cons ⟨rfl, hes⟩ habove⟩

/-- **A way leads to the same place** in trees that are alike. -/
theorem Alike.follow (h : p.Alike R p') (names : List String) :
    Matching (Place.Alike R) (p.follow names) (p'.follow names) := by
  induction names generalizing p p' with
  | nil => exact .ok h
  | cons name names ih =>
    rw [Place.follow, Place.follow, List.foldlM_cons, List.foldlM_cons]
    exact (h.enter name).bind fun q q' hq => ih hq

end Place

end Tree

/-! ## Disks -/

namespace Disk

/-- The same disk up to what its files hold. -/
structure Alike (R : ByteArray → ByteArray → Prop) (d d' : Disk) : Prop where
  root : d.root.Alike R d'.root
  current : d.current = d'.current

variable {R : ByteArray → ByteArray → Prop} {d d' : Disk}

theorem Alike.get (h : d.Alike R d') (p : Path) : Matching (Tree.Alike R) (d.get p) (d'.get p) := by
  have hnames : d.absolute p = d'.absolute p := by rw [absolute, absolute, h.current]
  have hstart : (Tree.Place.mk d.root []).Alike R (Tree.Place.mk d'.root []) := ⟨h.root, .nil⟩
  rw [Disk.get, Disk.get, Disk.follow, Disk.follow, hnames]
  split
  · exact .error _
  · split
    · exact .error _
    · exact (hstart.follow _).map fun q q' hq => hq.here

/-- **A path leads to related files**, to no file in both, or to the same error. -/
theorem Alike.file? (h : d.Alike R d') (p : Path) : Matching (Option.Rel R) (d.file? p) (d'.file? p) := by
  have hget := h.get p
  rw [Disk.file?, Disk.file?]
  generalize d.get p = x at hget
  generalize d'.get p = y at hget
  cases hget with
  | error e => cases e <;> first | exact .error _ | exact .ok .none
  | ok ht =>
    cases ht with
    | file hbytes => exact .ok (.some hbytes)
    | folder => exact .ok .none

end Disk

end Conformance
