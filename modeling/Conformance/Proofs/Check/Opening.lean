import Conformance.Check.BusinessLogic
import Conformance.Check.Exports
import Conformance.Check.Imports
import Conformance.Check.Operations
import Conformance.Proofs.Pattern.Padding

/-!
# How the matches of checks begin

No pattern that a check looks for matches the empty piece, and no match of one begins with a line feed: imports, exports,
operations, signatures and hooks all begin with a word or a mark, if need be behind blanks of the same line.
-/

namespace Conformance

open Pattern

namespace Import

theorem statement_startsInLine : statement.StartsInLine :=
  ((StartsInLine.text (by decide)).inOrder _).behindWordEdge

theorem reexport_startsInLine : reexport.StartsInLine :=
  ((StartsInLine.text (by decide)).inOrder _).behindWordEdge

end Import

namespace Export

/-- Before the word there may be spaces and tabs, but no line feeds. -/
theorem declaration_startsInLine : declaration.StartsInLine := by
  constructor
  · simp [declaration, isNullable]
  · simp [declaration, OpensWith, isNullable]

theorem utility_startsInLine : utility.StartsInLine :=
  ((StartsInLine.text (by decide)).inOrder _).behindWordEdge

end Export

namespace Operation

theorem call_startsInLine {name : String} (h : StartsInLine.isOpening name = true) : (call name).StartsInLine :=
  (StartsInLine.text h).inOrder _

theorem member_startsInLine {object : String} (h : StartsInLine.isOpening object = true) (names : List String) :
    (member object names).StartsInLine :=
  (StartsInLine.text h).inOrder _

theorem startsInLine_of_mem_patterns (o : Operation) : ∀ p ∈ o.patterns, p.StartsInLine := by
  cases o with
  | console => simpa [patterns] using member_startsInLine (by decide) _
  | network =>
    simp only [patterns, List.forall_mem_cons]
    exact ⟨call_startsInLine (by decide), .text (by decide), .text (by decide), call_startsInLine (by decide),
      call_startsInLine (by decide), by simp⟩
  | localStorage => simpa [patterns] using member_startsInLine (by decide) _

end Operation

namespace Logic

theorem pair_startsInLine {first : List String} (h : first.all StartsInLine.isOpening = true) (second : List String) :
    (pair first second).StartsInLine := by
  refine (StartsInLine.oneOf ?_).inOrder _
  rw [List.forall_mem_map]
  exact fun word hword => .anyCase (List.all_eq_true.mp h word hword)

theorem Signature.startsInLine_of_mem_catalogue : ∀ g ∈ catalogue, g.pattern.StartsInLine := by
  have hword : ∀ {word : String}, StartsInLine.isOpening word = true → ∀ ps,
      (inOrder (text word :: ps)).StartsInLine := fun h ps => (StartsInLine.text h).inOrder ps
  simp only [catalogue, List.forall_mem_cons]
  exact ⟨hword (by decide) _, hword (by decide) _, hword (by decide) _, hword (by decide) _, hword (by decide) _,
    (StartsInLine.text (by decide)).alt (.text (by decide)), hword (by decide) _, hword (by decide) _,
    pair_startsInLine (by decide) _, pair_startsInLine (by decide) _, pair_startsInLine (by decide) _,
    pair_startsInLine (by decide) _, pair_startsInLine (by decide) _, by simp⟩

end Logic

namespace Check

theorem stateHook_startsInLine : stateHook.StartsInLine := (StartsInLine.text (by decide)).inOrder _

theorem effectHook_startsInLine : effectHook.StartsInLine := (StartsInLine.text (by decide)).inOrder _

end Check

end Conformance
