import Conformance.Logic.Signature
import Conformance.Proofs.Pattern.Finding
import Conformance.Proofs.Pattern.Fitting
import Conformance.Proofs.Text.Word
import Mathlib.Data.List.TakeWhile

/-!
# Long functions

Where a function begins (`FunctionHead`), the parts of the signature before the body can match only its head, and they
match all of it: each run of theirs stops at a character that the next part begins with (`find_head`). The body is what
comes before the first closing brace or `return` (`LongestBody`). How much of the white space in front of it the signature
takes first makes no difference: from each of these places the run of the body ends at the same place, and if the body is
long enough, it is so from the first of them (`find_body`).

So the signature is found exactly at the functions with a long body, and it ends with the body
(`matchAt?_longFunction_iff`).
-/

namespace Conformance.Logic

open Pattern Text

/-! ## Heads -/

/-- How a function begins, from its keyword to the brace that opens its body. -/
structure FunctionHead where
  /-- The white space behind the keyword. -/
  gap : List Char
  name : List Char
  /-- The white space behind the name. -/
  nameGap : List Char
  /-- What stands between the parentheses. -/
  parameters : List Char
  /-- The white space before the brace. -/
  braceGap : List Char
  gap_ne_nil : gap ≠ []
  isBlank_gap : ∀ c ∈ gap, isBlank c = true
  name_ne_nil : name ≠ []
  isWord_name : ∀ c ∈ name, isWord c = true
  isBlank_nameGap : ∀ c ∈ nameGap, isBlank c = true
  notMem_parameters : ')' ∉ parameters
  isBlank_braceGap : ∀ c ∈ braceGap, isBlank c = true

namespace FunctionHead

variable (f : FunctionHead)

/-- What stands before the name. -/
def opening : List Char := "function".toList ++ f.gap

/-- What stands behind the name. -/
def ending : List Char := f.nameGap ++ (['('] ++ (f.parameters ++ ([')'] ++ (f.braceGap ++ ['\x7b']))))

def text : List Char := f.opening ++ (f.name ++ f.ending)

/-- The name, in a text in which the function begins at the offset. -/
def nameAt (offset : Nat) : Span := ⟨offset + f.opening.length, f.name⟩

end FunctionHead

/-- The patterns for what stands behind the name of a function. -/
def endingParts : List Pattern :=
  [blanks 0, char (· == '('), greedily 0 (· != ')'), char (· == ')'), blanks 0, char (· == '\x7b')]

/-- The patterns for the head of a function. -/
def headParts : List Pattern := text "function" :: blanks 1 :: mark (greedily 1 isWord) :: endingParts

/-- The patterns for the body of a long function. -/
def bodyParts : List Pattern := [blanks 0, run true longBody isBodyStep]

theorem longFunction_pattern : Signature.longFunction.pattern = inOrder (headParts ++ bodyParts) := rfl

theorem exists_head_of_fits {t : List Char} (h : (inOrder headParts).Fits t) : ∃ f : FunctionHead, t = f.text := by
  simp only [headParts, endingParts, fits_inOrder_cons, fits_inOrder_nil, fits_text, fits_blanks, fits_char_beq,
    fits_greedily, fits_mark] at h
  obtain ⟨keyword, _, rfl, hkeyword, gap, _, rfl, ⟨hgap, hgap'⟩, name, _, rfl, ⟨hname, hname'⟩, nameGap, _, rfl,
    ⟨-, hnameGap⟩, _, _, rfl, rfl, parameters, _, rfl, ⟨-, hparameters⟩, _, _, rfl, rfl, braceGap, _, rfl,
    ⟨-, hbraceGap⟩, _, _, rfl, rfl, rfl⟩ := h
  have hclosed : ')' ∉ parameters := fun hmem => by simpa using hparameters ')' hmem
  refine ⟨⟨gap, name, nameGap, parameters, braceGap, List.length_pos_iff.mp hgap, hgap', List.length_pos_iff.mp hname,
    hname', hnameGap, hclosed, hbraceGap⟩, ?_⟩
  unfold FunctionHead.text FunctionHead.opening FunctionHead.ending
  simp only [hkeyword, List.append_assoc, List.append_nil]

section Find

variable {α : Type} {k : Cursor → Option α} {c : Cursor} {ps : List Pattern} {xs : List Char}

/-- What stands before the name is matched as a whole. -/
theorem find_opening (f : FunctionHead) (h : c.rest = f.opening ++ (f.name ++ xs))
    (hps : (inOrder ps).isNullable = false) (hopens : ∀ x, isBlank x = true → ¬ (inOrder ps).OpensWith x) :
    (inOrder (text "function" :: blanks 1 :: ps)).find k c = (inOrder ps).find k (c.past f.opening) := by
  unfold FunctionHead.opening at h ⊢
  rw [List.append_assoc] at h
  have hname : ∀ x ∈ (f.name ++ xs).head?, isBlank x = false := by
    intro x hx
    rw [List.head?_append_of_ne_nil _ f.name_ne_nil] at hx
    exact isBlank_of_isWord (f.isWord_name x (List.mem_of_mem_head? hx))
  have hgap := List.length_pos_iff.mpr f.gap_ne_nil
  rw [find_inOrder_cons, find_text h, blanks,
    find_greedily_inOrder (Cursor.rest_past h) f.isBlank_gap hname hgap hps hopens, Cursor.past_append]

/-- What stands behind the name is matched as a whole. -/
theorem find_ending (f : FunctionHead) (h : c.rest = f.ending ++ xs) :
    (inOrder (endingParts ++ ps)).find k c = (inOrder ps).find k (c.past f.ending) := by
  unfold FunctionHead.ending at h ⊢
  simp only [List.append_assoc] at h
  have hparameters := Cursor.rest_past (t := f.nameGap ++ ['(']) (h.trans (List.append_assoc ..).symm)
  have hparenthesis := Cursor.rest_past hparameters
  have hbrace := Cursor.rest_past hparenthesis
  have hplain : ∀ x ∈ f.parameters, (x != ')') = true := by
    intro x hx
    rw [bne_iff_ne]
    rintro rfl
    exact f.notMem_parameters hx
  unfold endingParts
  simp only [List.cons_append, List.nil_append]
  rw [find_behind_blanks h f.isBlank_nameGap (by decide),
    find_greedily_inOrder hparameters hplain (by simp) (Nat.zero_le _) (by simp [isNullable])
      (by simp [OpensWith, isNullable]), find_inOrder_cons, find_char_beq hparenthesis,
    find_behind_blanks hbrace f.isBlank_braceGap (by decide)]
  simp only [← Cursor.past_append, List.append_assoc, List.cons_append, List.nil_append]

/-- The name goes to the end of the word, since what stands behind it begins with no word character. -/
theorem find_name (f : FunctionHead) (h : c.rest = f.name ++ (f.ending ++ xs)) :
    (inOrder (mark (greedily 1 isWord) :: (endingParts ++ ps))).find k c =
      (inOrder (endingParts ++ ps)).find k ((c.past f.name).marking ⟨c.offset, f.name⟩) := by
  have hstops : StopsWord (f.ending ++ xs) := by
    unfold FunctionHead.ending
    rw [List.append_assoc]
    exact .append (fun x hx => isWord_of_isBlank (f.isBlank_nameGap x hx)) (stopsWord_cons (by decide))
  have hopens : ∀ x, isWord x = true → ¬ (inOrder (endingParts ++ ps)).OpensWith x := by
    intro x hx
    have hparenthesis : x ≠ '(' := by
      rintro rfl
      exact absurd hx (by decide)
    simp [endingParts, OpensWith, isNullable, isBlank_of_isWord hx, hparenthesis]
  have hlength : 1 ≤ f.name.length := List.length_pos_iff.mpr f.name_ne_nil
  rw [find_inOrder_cons, find_mark, find_greedily_of_fails h f.isWord_name hstops, if_pos hlength,
    (Cursor.reaches_past h).upTo_eq]
  intro d hd
  exact find_eq_none_of_head? (by simp [endingParts, isNullable]) hopens hd

/-- **The head of a function is matched as a whole**, and its name is marked. -/
theorem find_head (f : FunctionHead) (h : c.rest = f.text ++ xs) :
    (inOrder (headParts ++ ps)).find k c =
      (inOrder ps).find k ((c.past f.text).marking (f.nameAt c.offset)) := by
  have hopening : c.rest = f.opening ++ (f.name ++ (f.ending ++ xs)) := by
    rw [h]
    simp only [FunctionHead.text, List.append_assoc]
  have hname := Cursor.rest_past hopening
  have hending : (((c.past f.opening).past f.name).marking (f.nameAt c.offset)).rest = f.ending ++ xs :=
    Cursor.rest_past hname
  have hopens : ∀ x, isBlank x = true →
      ¬ (inOrder (mark (greedily 1 isWord) :: (endingParts ++ ps))).OpensWith x := by
    intro x hx
    simp [OpensWith, isNullable, isWord_of_isBlank hx]
  show (inOrder (text "function" :: blanks 1 :: mark (greedily 1 isWord) :: (endingParts ++ ps))).find k c = _
  rw [find_opening f hopening (by simp [isNullable]) hopens, find_name f hname]
  show (inOrder (endingParts ++ ps)).find k (((c.past f.opening).past f.name).marking (f.nameAt c.offset)) = _
  rw [find_ending f hending]
  simp only [FunctionHead.text, Cursor.past_append, Cursor.past_marking]

end Find

/-! ## Bodies -/

/-- The longest piece at the beginning of a text without a closing brace and in which no `return` begins: it ends before
one of these or at the end of the text. -/
structure LongestBody (body rest : List Char) : Prop where
  noBrace : '\x7d' ∉ body
  noReturn : ∀ u v, body = u ++ v → v ≠ [] → ¬ "return".toList <+: v ++ rest
  ends : rest = [] ∨ rest.head? = some '\x7d' ∨ "return".toList <+: rest

theorem isBodyStep_iff {x : Char} {xs : List Char} :
    isBodyStep (x :: xs) = true ↔ x ≠ '\x7d' ∧ ¬ "return".toList <+: x :: xs := by
  unfold isBodyStep
  rw [Bool.and_eq_true, Bool.not_eq_true', ← Bool.not_eq_true, List.isPrefixOf_iff_prefix]
  simp

theorem longestRun_iff {body rest : List Char} : LongestRun isBodyStep body rest ↔ LongestBody body rest := by
  induction body with
  | nil =>
    have hends : (rest ≠ [] → isBodyStep rest = false) ↔
        rest = [] ∨ rest.head? = some '\x7d' ∨ "return".toList <+: rest := by
      cases rest with
      | nil => simp
      | cons x xs =>
        rw [← Bool.not_eq_true, isBodyStep_iff]
        simp only [ne_eq, reduceCtorEq, not_false_eq_true, true_imp_iff, List.head?_cons, Option.some.injEq, false_or]
        tauto
    constructor
    · intro h
      refine ⟨List.not_mem_nil, ?_, hends.mp h⟩
      intro u v hnil hv
      exact absurd (List.append_eq_nil_iff.mp hnil.symm).2 hv
    · intro h
      exact hends.mpr h.ends
  | cons x body ih =>
    rw [LongestRun, ih, isBodyStep_iff]
    constructor
    · rintro ⟨⟨hbrace, hreturn⟩, h⟩
      refine ⟨?_, ?_, h.ends⟩
      · rw [List.mem_cons, not_or]
        exact ⟨hbrace.symm, h.noBrace⟩
      · intro u v huv hv
        cases u with
        | nil =>
          obtain rfl : x :: body = v := huv
          exact hreturn
        | cons y u => exact h.noReturn u v (List.cons.inj huv).2 hv
    · intro h
      refine ⟨⟨?_, h.noReturn [] (x :: body) rfl (List.cons_ne_nil x body)⟩, ?_⟩
      · rintro rfl
        exact h.noBrace List.mem_cons_self
      · refine ⟨fun hmem => h.noBrace (List.mem_cons_of_mem x hmem), ?_, h.ends⟩
        rintro u v rfl hv
        exact h.noReturn (x :: u) v rfl hv

/-- White space goes on in a body. -/
theorem isBodyStep_of_isBlank {x : Char} (hx : isBlank x = true) (xs : List Char) : isBodyStep (x :: xs) = true := by
  rw [isBodyStep_iff]
  constructor
  · rintro rfl
    exact absurd hx (by decide)
  · intro hreturn
    obtain rfl : 'r' = x := (List.cons_prefix_cons.mp hreturn).1
    exact absurd hx (by decide)

section Find

variable {α : Type} {g : Cursor → α} {c : Cursor} {body rest : List Char}

/-- **A long body is matched as a whole.** However much of the white space in front is left to the run of the body, the
match ends where the longest run ends. -/
theorem find_body (h : c.rest = body ++ rest) (hrun : LongestRun isBodyStep body rest) :
    (inOrder bodyParts).find (fun d => some (g d)) c =
      if longBody ≤ body.length then some (g (c.past body)) else none := by
  have hbehind : ∀ u v, body = u ++ v →
      (run true longBody isBodyStep).find (fun d => some (g d)) (c.past u) =
        if longBody ≤ v.length then some (g (c.past body)) else none := by
    rintro u v rfl
    rw [Cursor.past_append]
    exact hrun.of_append.find_eq_of_some (Cursor.rest_past (h.trans (List.append_assoc ..))) rfl
  have hgap : ∀ x ∈ body.takeWhile isBlank, isBlank x = true := fun x hx => List.mem_takeWhile_imp hx
  have hend : ∀ x ∈ rest.head?, isBlank x = false := by
    intro x hx
    obtain ⟨xs, rfl⟩ := List.head?_eq_some_iff.mp hx
    by_contra hblank
    rw [Bool.not_eq_false] at hblank
    have hfails := hrun.fails_behind (List.cons_ne_nil x xs)
    rw [isBodyStep_of_isBlank hblank] at hfails
    cases hfails
  have hstop := head?_dropWhile_append body hend
  have hblanks : c.rest = body.takeWhile isBlank ++ (body.dropWhile isBlank ++ rest) := by
    rw [h, ← List.append_assoc, List.takeWhile_append_dropWhile]
  have hreaches : ∀ d ∈ runEnds true 0 (fun cs => cs.head?.any isBlank) c, ∃ u v, body = u ++ v ∧ d = c.past u := by
    intro d hd
    obtain ⟨u, hu, -, rfl⟩ := ((LongestRun.of_class hgap hstop).mem_runEnds_iff hblanks).mp hd
    obtain ⟨v, hv⟩ := hu.trans (List.takeWhile_prefix isBlank)
    exact ⟨u, v, hv.symm, rfl⟩
  show (runEnds true 0 _ c).findSome? ((run true longBody isBodyStep).find fun d => some (g d)) = _
  by_cases hlong : longBody ≤ body.length
  · have hfirst : c.past [] ∈ runEnds true 0 (fun cs => cs.head?.any isBlank) c :=
      ((LongestRun.of_class hgap hstop).mem_runEnds_iff hblanks).mpr ⟨[], List.nil_prefix, Nat.zero_le _, rfl⟩
    rw [if_pos hlong]
    refine findSome?_eq_some_of_agree ?_ hfirst ?_
    · intro d hd b hb
      obtain ⟨u, v, huv, rfl⟩ := hreaches d hd
      rw [hbehind u v huv] at hb
      split at hb <;> cases hb
      rfl
    · rw [hbehind [] body rfl, if_pos hlong]
  · rw [if_neg hlong, List.findSome?_eq_none_iff]
    intro d hd
    obtain ⟨u, v, rfl, rfl⟩ := hreaches d hd
    rw [List.length_append] at hlong
    rw [hbehind u v rfl, if_neg (by omega)]

end Find

/-! ## Functions -/

variable {c : Cursor} {body rest : List Char}

/-- Behind a head, a long function is found exactly if the longest body is long, and it ends with that body. -/
theorem matchAt?_of_head (f : FunctionHead) (h : c.rest = f.text ++ (body ++ rest)) (hbody : LongestBody body rest) :
    Signature.longFunction.pattern.matchAt? c =
      if 50 ≤ body.length then some ⟨⟨c.offset, f.text ++ body⟩, some (f.nameAt c.offset)⟩ else none := by
  have hrest : ((c.past f.text).marking (f.nameAt c.offset)).rest = body ++ rest := Cursor.rest_past h
  have hwhole : c.upTo (c.past (f.text ++ body)) = ⟨c.offset, f.text ++ body⟩ :=
    (Cursor.reaches_past (h.trans (List.append_assoc ..).symm)).upTo_eq
  rw [matchAt?, longFunction_pattern, find_head f h, find_body hrest (longestRun_iff.mpr hbody), ← hwhole,
    Cursor.past_append]
  rfl

/-- A match begins with the head of a function, and a longest body follows it. -/
theorem exists_head_of_matchAt? {m : Match} (h : Signature.longFunction.pattern.matchAt? c = some m) :
    ∃ (f : FunctionHead) (body rest : List Char), c.rest = f.text ++ (body ++ rest) ∧ LongestBody body rest := by
  obtain ⟨d, hd, -⟩ := exists_of_matchAt? h
  rw [longFunction_pattern, ends_inOrder_append, List.mem_flatMap] at hd
  obtain ⟨e, he, -⟩ := hd
  obtain ⟨t, ht, hfits⟩ := exists_fitting_of_mem_ends he
  obtain ⟨f, rfl⟩ := exists_head_of_fits hfits
  obtain ⟨body, rest, hrest, hrun⟩ := LongestRun.exists_append isBodyStep e.rest
  exact ⟨f, body, rest, by rw [ht.1, hrest], longestRun_iff.mp hrun⟩

/-- **A long function is found at a place exactly if** the head of a function stands there and the longest body behind it
has at least 50 characters, white space in front included. What is found ends with that body. -/
theorem matchAt?_longFunction_iff (content : List Char) (p : Nat) (m : Match) :
    Signature.longFunction.pattern.matchAt? (Cursor.ofOffset content p) = some m ↔
      ∃ (f : FunctionHead) (body rest : List Char), content.drop p = f.text ++ (body ++ rest) ∧
        LongestBody body rest ∧ 50 ≤ body.length ∧ m = ⟨⟨p, f.text ++ body⟩, some (f.nameAt p)⟩ := by
  constructor
  · intro h
    obtain ⟨f, body, rest, hrest, hbody⟩ := exists_head_of_matchAt? h
    rw [matchAt?_of_head f hrest hbody] at h
    split at h
    · case isTrue hlong => exact ⟨f, body, rest, hrest, hbody, hlong, (Option.some.inj h).symm⟩
    · cases h
  · rintro ⟨f, body, rest, hrest, hbody, hlong, rfl⟩
    rw [matchAt?_of_head f hrest hbody, if_pos hlong]
    rfl

end Conformance.Logic
