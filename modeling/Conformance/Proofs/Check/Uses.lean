import Conformance.Proofs.Pattern.Phrase

/-!
# Uses of denied operations

The patterns of an operation recognize phrases (`Operation.recognizes_phrases`), and the texts of each of them stand
apart. So the check of operations reports every use of what a rule denies, wherever it stands
(`Check.operations_eq_uses`): no use hides another.
-/

namespace Conformance

open Pattern

namespace Operation

/-- What the uses of a family look like. -/
def phrases : Operation → List Phrase
  | console =>
    [.words ["console.log", "console.warn", "console.error", "console.info", "console.debug", "console.trace"]]
  | network => [.call "fetch", .words ["axios."], .words ["XMLHttpRequest"], .call ".get", .call ".post"]
  | localStorage =>
    [.words ["localStorage.getItem", "localStorage.setItem", "localStorage.removeItem", "localStorage.clear"]]

theorem recognizes_phrases (o : Operation) : List.Forall₂ (fun p f => p.Recognizes f.Spells) o.patterns o.phrases := by
  cases o with
  | console => exact .cons (Phrase.recognizes_member _ _) .nil
  | network =>
    exact .cons (Phrase.recognizes_call _) (.cons (Phrase.recognizes_word _) (.cons (Phrase.recognizes_word _)
      (.cons (Phrase.recognizes_call _) (.cons (Phrase.recognizes_call _) .nil))))
  | localStorage => exact .cons (Phrase.recognizes_member _ _) .nil

theorem apart_phrases (o : Operation) : ∀ f ∈ o.phrases, Apart f.Spells := by
  have hall : o.phrases.all (·.standsApart) = true := by cases o <;> decide +kernel
  exact fun f hf => Phrase.apart (List.all_eq_true.mp hall f hf)

/-- The patterns of a family find the uses of its phrases. -/
theorem map_whole_scan_patterns (o : Operation) (text : List Char) :
    (o.patterns.flatMap (·.scan text)).map (·.whole) = o.phrases.flatMap (·.uses text) := by
  have hall : ∀ (ps : List Pattern) (fs : List Phrase), List.Forall₂ (fun p f => p.Recognizes f.Spells) ps fs →
      (∀ f ∈ fs, Apart f.Spells) → (ps.flatMap (·.scan text)).map (·.whole) = fs.flatMap (·.uses text) := by
    intro ps fs h hapart
    induction h with
    | nil => rfl
    | cons hp _ ih =>
      obtain ⟨hf, hfs⟩ := List.forall_mem_cons.mp hapart
      rw [List.flatMap_cons, List.flatMap_cons, List.map_append, Phrase.map_whole_scan hf hp, ih hfs]
  exact hall _ _ o.recognizes_phrases o.apart_phrases

end Operation

/-- What is reported of a use of an operation: its text, and the line in which it starts. -/
def Subject.useOf (s : Subject) (o : Operation) (use : Span) : Violation where
  file := s.file
  moduleName := s.rule.moduleName
  category := .operation
  message := "Forbidden " ++ o.label ++ " operation: " ++ String.ofList use.text
  line := some (Text.lineFeeds (s.text.take use.start) + 1 : Nat)
  severity := .error

namespace Check

theorem operationFaults_eq (s : Subject) (o : Operation) :
    operationFaults s o = o.phrases.flatMap fun f => (f.uses s.text).map (s.useOf o) := by
  have hfaults : operationFaults s o = ((o.patterns.flatMap (·.scan s.text)).map (·.whole)).map (s.useOf o) := by
    rw [operationFaults, List.map_map]
    rfl
  rw [hfaults, o.map_whole_scan_patterns, List.map_flatMap]

/-- **Every use of a denied operation is reported**: for each operation that a rule denies, and for each of its phrases,
there is one violation for each place where a text of the phrase starts, from left to right. What names no operation
adds nothing. -/
theorem operations_eq_uses (s : Subject) : ∃ uses : Phrase → List Span,
    (∀ o : Operation, ∀ f ∈ o.phrases, AreOccurrences f.Spells s.text (uses f)) ∧
      operations s = s.rule.deniedOperations.flatMap fun target =>
        (Operation.ofTarget? target).toList.flatMap fun o => o.phrases.flatMap fun f => (uses f).map (s.useOf o) := by
  refine ⟨fun f => f.uses s.text, fun o f hf => Phrase.areOccurrences_uses (o.apart_phrases f hf) s.text, ?_⟩
  rw [operations]
  congr 1
  funext target
  cases Operation.ofTarget? target with
  | none => rfl
  | some o =>
    rw [Option.toList_some, List.flatMap_singleton]
    exact operationFaults_eq s o

/-- A file with a name in front of a call that goes over two lines, under a rule that denies calls of the network. -/
def callingSubject : Subject where
  settings := {}
  file := "a.ts"
  rule := { location := "a.ts", deniedOperations := ["io.network.*", "io.teapot.*"] }
  text := "fetchfetch\n\t(axios.get(1))".toList

theorem operations_eq_uses_callingSubject : Phrase.call "fetch" ∈ Operation.network.phrases ∧
    ∃ uses : Phrase → List Span,
      AreOccurrences (Phrase.call "fetch").Spells callingSubject.text (uses (.call "fetch")) ∧
        operations callingSubject =
          Operation.network.phrases.flatMap fun f => (uses f).map (callingSubject.useOf .network) := by
  have hmem : Phrase.call "fetch" ∈ Operation.network.phrases := List.mem_cons_self
  have hknown : Operation.ofTarget? "io.network.*" = some .network := by decide +kernel
  have hunknown : Operation.ofTarget? "io.teapot.*" = none := by decide +kernel
  have hdenied : callingSubject.rule.deniedOperations = ["io.network.*", "io.teapot.*"] := rfl
  obtain ⟨uses, hoccurrences, hoperations⟩ := operations_eq_uses callingSubject
  refine ⟨hmem, uses, hoccurrences _ _ hmem, ?_⟩
  rw [hoperations, hdenied]
  simp only [List.flatMap_cons, List.flatMap_nil, hknown, hunknown, Option.toList_some, Option.toList_none,
    List.append_nil]

/-- The name before the call is none, and the call in it is found too. -/
example : (operations callingSubject).map (fun v => (v.message, v.line)) =
    [("Forbidden network operation: fetch\n\t(", some 1), ("Forbidden network operation: axios.", some 2),
     ("Forbidden network operation: .get(", some 2)] := by decide +kernel

end Check

end Conformance
