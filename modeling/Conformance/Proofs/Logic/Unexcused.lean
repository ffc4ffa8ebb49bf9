import Conformance.Proofs.Check.Padding
import Conformance.Proofs.Pattern.Phrase

/-!
# Findings that nothing excuses

Three signatures report errors and let no match pass: handling of promises, calls of `fetch` and uses of the storage.
Each recognizes a phrase whose texts stand apart, so every use of the phrase is a finding (`Unexcused.reported_eq`), and
it remains one whatever code is put around it.
-/

namespace Conformance.Logic

/-- The signatures that excuse nothing. -/
inductive Unexcused where
  | promiseThen
  | fetch
  | storage

namespace Unexcused

def signature : Unexcused → Signature
  | promiseThen => .promiseThen
  | fetch => .fetch
  | storage => .storage

/-- What the signature looks for. -/
def phrase : Unexcused → Phrase
  | promiseThen => .call ".then"
  | fetch => .call "fetch"
  | storage => .words ["localStorage.", "sessionStorage."]

variable (g : Unexcused)

theorem recognizes : g.signature.pattern.Recognizes g.phrase.Spells := by
  cases g with
  | promiseThen => exact Phrase.recognizes_call ".then"
  | fetch => exact Phrase.recognizes_call "fetch"
  | storage => exact Phrase.recognizes_either "localStorage." "sessionStorage."

theorem apart : Apart g.phrase.Spells :=
  Phrase.apart (by cases g <;> decide +kernel)

/-- The catalogue has one signature of the name. -/
theorem filter_catalogue : Signature.catalogue.filter (·.name = g.signature.name) = [g.signature] := by
  cases g <;> rfl

/-- No match passes, in no context. -/
theorem passes_eq_false (m : Match) (around : List Char) : g.signature.passes m around = false := by
  have hwarning : decide (Severity.error = Severity.warning) = false := by decide
  cases g <;> exact congrArg (· && isInterfaceCode around) hwarning

end Unexcused

/-! ## Findings by signature -/

/-- The findings that the catalogue reports under a name. -/
def reported (name : String) (text : List Char) : List Finding :=
  (findings Signature.catalogue text).filter (·.signature.name = name)

theorem Signature.filter_findings (s : Signature) (name : String) (text : List Char) :
    (s.findings text).filter (·.signature.name = name) = if s.name = name then s.findings text else [] := by
  have hsignature : ∀ f ∈ s.findings text, f.signature = s := by
    intro f hf
    obtain ⟨m, -, rfl⟩ := List.mem_map.mp hf
    rfl
  split
  · rename_i hname
    rw [List.filter_eq_self]
    intro f hf
    simp [hsignature f hf, hname]
  · rename_i hname
    rw [List.filter_eq_nil_iff]
    intro f hf
    simp [hsignature f hf, hname]

/-- The findings under a name are those of the signatures with the name. -/
theorem filter_findings (signatures : List Signature) (name : String) (text : List Char) :
    (findings signatures text).filter (·.signature.name = name) = findings (signatures.filter (·.name = name)) text := by
  induction signatures with
  | nil => rfl
  | cons s ss ih =>
    have hcons : ∀ ss, findings (s :: ss) text = s.findings text ++ findings ss text := fun _ => List.flatMap_cons
    rw [hcons, List.filter_append, ih, s.filter_findings]
    by_cases hname : s.name = name
    · rw [if_pos hname, List.filter_cons_of_pos (by simpa using hname), hcons]
    · rw [if_neg hname, List.filter_cons_of_neg (by simpa using hname), List.nil_append]

namespace Unexcused

variable (g : Unexcused)

/-- What is reported of a use: the line in which it starts, and its first 50 characters. -/
def findingOf (text : List Char) (use : Span) : Finding where
  signature := g.signature
  line := Text.lineFeeds (text.take use.start) + 1
  excerpt := String.ofList (use.text.take 50)

theorem reported_eq_map (text : List Char) :
    reported g.signature.name text = (g.phrase.uses text).map (g.findingOf text) := by
  have hfilter : (g.signature.pattern.scan text).filter (fun m => !g.signature.passes m (context text m)) =
      g.signature.pattern.scan text := by
    rw [List.filter_eq_self]
    intro m _
    rw [g.passes_eq_false]
    rfl
  rw [reported, filter_findings, g.filter_catalogue, findings, List.flatMap_singleton, Signature.findings, hfilter,
    ← Phrase.map_whole_scan g.apart g.recognizes, List.map_map]
  rfl

/-- Code in front of a use moves what is reported of it down by its lines; code behind it does nothing. -/
theorem findingOf_around {P : List Char → Prop} {text : List Char} {use : Span} (huse : use.IsOccurrence P text)
    (before after : List Char) : g.findingOf (before ++ (text ++ after)) (use.moved before.length) =
      (g.findingOf text use).lowered (Text.lineFeeds before) := by
  obtain ⟨u, v, htext, hstart, -⟩ := huse
  have hfront : text.take use.start = u := by rw [htext, ← hstart, List.take_left]
  have hsplit : before ++ (text ++ after) = before ++ u ++ (use.text ++ (v ++ after)) := by simp [htext]
  have hlength : (before ++ u).length = use.start + before.length := by
    rw [List.length_append, hstart, Nat.add_comm]
  have hfront' : (before ++ (text ++ after)).take (use.start + before.length) = before ++ u := by
    rw [hsplit, ← hlength, List.take_left]
  have hline : Text.lineFeeds ((before ++ (text ++ after)).take (use.start + before.length)) + 1 =
      Text.lineFeeds (text.take use.start) + 1 + Text.lineFeeds before := by
    rw [hfront, hfront', Text.lineFeeds_append]
    omega
  exact congrArg (Finding.mk g.signature · _) hline

theorem reported_sublist_around (before text after : List Char) :
    ((reported g.signature.name text).map (Finding.lowered (Text.lineFeeds before))).Sublist
      (reported g.signature.name (before ++ (text ++ after))) := by
  have huses := Phrase.areOccurrences_uses g.apart text
  have huses' := Phrase.areOccurrences_uses g.apart (before ++ (text ++ after))
  have hmoved : (reported g.signature.name text).map (Finding.lowered (Text.lineFeeds before)) =
      ((g.phrase.uses text).map (Span.moved before.length)).map (g.findingOf (before ++ (text ++ after))) := by
    rw [reported_eq_map, List.map_map, List.map_map]
    exact List.map_congr_left fun use huse => (g.findingOf_around ((huses.mem_iff use).mp huse) before after).symm
  rw [hmoved, reported_eq_map]
  exact (huses.sublist_around huses').map _

/-- **A use is reported wherever it stands.** The findings of an unexcused signature are the uses of its phrase, one for
each place where a text of the phrase starts; and what is found in a text is found in it with any code around it, as many
lines further down as there are in front. -/
theorem reported_eq : (∀ text, ∃ uses, AreOccurrences g.phrase.Spells text uses ∧
      reported g.signature.name text = uses.map (g.findingOf text)) ∧
    ∀ before text after, ((reported g.signature.name text).map (Finding.lowered (Text.lineFeeds before))).Sublist
      (reported g.signature.name (before ++ (text ++ after))) :=
  ⟨fun text => ⟨_, Phrase.areOccurrences_uses g.apart text, g.reported_eq_map text⟩, g.reported_sublist_around⟩

end Unexcused

end Conformance.Logic
