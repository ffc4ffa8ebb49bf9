import Conformance.Proofs.Path
import Conformance.Proofs.Pattern.Recognition
import Conformance.Proofs.Wildcard
import Conformance.Wildcard.Search

/-!
# A search finds what a wildcard pattern matches

Main statement: `finds_eq_accepts`, the two ways of searching agree with matching character by character.

A text fits the expression for some pieces iff it holds them in order, with gaps on one line between them
(`fits_expression_iff`), which is what the pattern with these pieces spells. A pattern without a star spells itself
alone (`spells_iff_eq`).
-/

namespace Conformance.Wildcard

/-! ## Patterns with stars -/

section Expression

variable {piece next w : List Char} {pieces : List (List Char)}

theorem fits_gap : gap.Fits w ↔ '\n' ∉ w := by
  rw [gap, Pattern.fits_greedily]
  constructor
  · rintro ⟨-, hpasses⟩ hmem
    exact absurd (hpasses '\n' hmem) (by decide)
  · intro hline
    refine ⟨Nat.zero_le _, fun x hx => bne_iff_ne.mpr ?_⟩
    rintro rfl
    exact hline hx

theorem fits_expression_singleton : (expression [piece]).Fits w ↔ w = piece := by
  simp [expression, Pattern.fits_inOrder_cons, Pattern.fits_inOrder_nil, Pattern.fits_text]

/-- The first piece, a gap on one line, and the other pieces. -/
theorem fits_expression_cons_cons : (expression (piece :: next :: pieces)).Fits w ↔
    ∃ skipped rest, w = piece ++ skipped ++ rest ∧ '\n' ∉ skipped ∧ (expression (next :: pieces)).Fits rest := by
  have hcons : expression (piece :: next :: pieces) = Pattern.inOrder
      (Pattern.text (String.ofList piece) :: gap ::
        ((next :: pieces).map fun piece => Pattern.text (String.ofList piece)).intersperse gap) := rfl
  rw [hcons, Pattern.fits_inOrder_cons]
  simp only [Pattern.fits_inOrder_cons, Pattern.fits_text, String.toList_ofList, fits_gap]
  constructor
  · rintro ⟨_, _, rfl, rfl, skipped, rest, rfl, hskipped, hrest⟩
    exact ⟨skipped, rest, (List.append_assoc ..).symm, hskipped, hrest⟩
  · rintro ⟨skipped, rest, rfl, hskipped, hrest⟩
    exact ⟨piece, skipped ++ rest, List.append_assoc .., rfl, skipped, rest, rfl, hskipped, hrest⟩

/-- **The expression for some pieces is fitted by these pieces with gaps between them.** -/
theorem fits_expression_iff : (expression (piece :: pieces)).Fits w ↔
    ∃ gaps, Gaps (piece :: pieces) gaps ∧ w = withGaps (piece :: pieces) gaps := by
  induction pieces generalizing piece w with
  | nil =>
    rw [fits_expression_singleton]
    constructor
    · rintro rfl
      exact ⟨[], ⟨rfl, List.forall_mem_nil _⟩, (List.append_nil w).symm⟩
    · rintro ⟨gaps, hgaps, rfl⟩
      obtain rfl : gaps = [] := List.length_eq_zero_iff.mp (Nat.succ.inj hgaps.length).symm
      exact List.append_nil piece
  | cons next pieces ih =>
    rw [fits_expression_cons_cons]
    constructor
    · rintro ⟨skipped, rest, rfl, hskipped, hrest⟩
      obtain ⟨gaps, hgaps, rfl⟩ := ih.mp hrest
      refine ⟨skipped :: gaps, ⟨?_, List.forall_mem_cons.mpr ⟨hskipped, hgaps.onOneLine⟩⟩, rfl⟩
      exact congrArg Nat.succ hgaps.length
    · rintro ⟨gaps, hgaps, rfl⟩
      cases gaps with
      | nil => cases hgaps.length
      | cons skipped gaps =>
        obtain ⟨hskipped, hlines⟩ := List.forall_mem_cons.mp hgaps.onOneLine
        exact ⟨skipped, _, rfl, hskipped, ih.mpr ⟨gaps, ⟨Nat.succ.inj hgaps.length, hlines⟩, rfl⟩⟩

/-- The expression for the pieces of a pattern is fitted by what the pattern spells. -/
theorem fits_expression_splitAt_iff {pattern : List Char} :
    (expression (Path.splitAt '*' pattern)).Fits w ↔ Spells pattern w := by
  obtain ⟨piece, pieces, hparts⟩ := exists_parts_eq pattern
  rw [spells_iff_exists_gaps, hparts, ← fits_expression_iff, ← hparts, Path.splitAt_eq_splitOn, parts]

theorem plain_expression (pieces : List (List Char)) : (expression pieces).Plain := by
  induction pieces with
  | nil => trivial
  | cons piece pieces ih =>
    cases pieces with
    | nil => exact ⟨Pattern.plain_text _, trivial⟩
    | cons next pieces => exact ⟨Pattern.plain_text _, Pattern.plain_greedily 0 _, ih⟩

end Expression

/-! ## Patterns without a star -/

/-- A pattern without a star spells itself alone. -/
theorem spells_iff_eq {pattern w : List Char} (h : '*' ∉ pattern) : Spells pattern w ↔ w = pattern := by
  induction pattern generalizing w with
  | nil => exact spells_nil_iff
  | cons x pattern ih =>
    obtain ⟨hx, hrest⟩ := not_or.mp (mt List.mem_cons.mpr h)
    rw [spells_cons_iff fun hstar => hx hstar.symm]
    simp only [ih hrest, exists_eq_right]

/-! ## The search -/

/-- **A search succeeds iff the candidate matches the pattern.** -/
theorem finds_eq_accepts (pattern candidate : String) : finds pattern candidate = accepts pattern candidate := by
  rw [Bool.eq_iff_iff, accepts_iff, finds]
  split
  case isTrue =>
    rw [Pattern.occursIn_iff (plain_expression _)]
    constructor
    · rintro ⟨w, hw, u, v, heq⟩
      exact ⟨u, w, v, by rw [← heq, List.append_assoc], fits_expression_splitAt_iff.mp hw⟩
    · rintro ⟨u, w, v, heq, hw⟩
      exact ⟨w, fits_expression_splitAt_iff.mpr hw, u, v, by rw [heq, List.append_assoc]⟩
  case isFalse hstar =>
    have hspells : ∀ w, Spells pattern.toList w ↔ w = pattern.toList :=
      fun _ => spells_iff_eq (mt List.contains_iff_mem.mpr hstar)
    rw [Text.occursIn, Text.occurs_iff]
    constructor
    · rintro ⟨u, v, heq⟩
      exact ⟨u, _, v, by rw [heq, List.append_assoc], (hspells _).mpr rfl⟩
    · rintro ⟨u, w, v, heq, hw⟩
      obtain rfl := (hspells w).mp hw
      exact ⟨u, v, by rw [heq, List.append_assoc]⟩

/-- Either function may stand for the other, also where nothing is applied yet. -/
theorem finds_eq : finds = accepts := funext₂ finds_eq_accepts

end Conformance.Wildcard
