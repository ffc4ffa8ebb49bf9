import Conformance.Proofs.Check.Arising
import Conformance.Proofs.Pattern.Recognition
import Conformance.Proofs.Pattern.Word

/-!
# The number of state hooks

`StateLine` is a line that declares a state, with a type argument or without one, and `StateLine.source` a text that is
made of such lines. A hook is recognized if its type argument has no brackets of its own. One that has some is
recognized only if the first bracket that is closed in it has an opening parenthesis behind it (`isRecognized_iff`): the
type argument is taken to end there.

A scan finds one hook in each line whose hook is recognized, since no hook begins elsewhere in a line and no match goes
beyond the hook (`StateLine.length_scanFrom`). So the warning about state hooks tells how many lines are counted
(`Check.filter_hookComplexity_source`), which are not all lines (`Check.not_forall_stateHook_counted`).
-/

namespace Conformance

open Pattern Text

/-! ## Lines -/

/-- Whether angle brackets are balanced behind `depth` open ones. -/
def isBalanced : Nat → List Char → Bool
  | depth, [] => depth == 0
  | depth, x :: t =>
    if x = '<' then isBalanced (depth + 1) t
    else if x = '>' then depth != 0 && isBalanced (depth - 1) t
    else isBalanced depth t

/-- A line that declares a state: `const [state, setter] = useState<type>(initial);`, with or without a type. -/
structure StateLine where
  state : List Char
  setter : List Char
  type? : Option (List Char)
  initial : List Char
  noHook_state : occurs "useState".toList state = false
  noHook_setter : occurs "useState".toList setter = false
  noHook_initial : occurs "useState".toList initial = false
  noHook_type : ∀ t ∈ type?, occurs "useState".toList t = false
  type_ne_nil : ∀ t ∈ type?, t ≠ []
  isBalanced_type : ∀ t ∈ type?, isBalanced 0 t = true

namespace StateLine

/-- A type in angle brackets. -/
def typeArgument (type? : Option (List Char)) : List Char := (type?.map fun t => '<' :: (t ++ ['>'])).getD []

def text (l : StateLine) : List Char :=
  "const [".toList ++ l.state ++ ", ".toList ++ l.setter ++ "] = useState".toList ++ typeArgument l.type? ++
    "(".toList ++ l.initial ++ ");".toList

/-- Whether a hook with a type argument is recognized: the type has no brackets of its own, or the first one that is
closed in it has an opening parenthesis behind it. -/
def isRecognized : Option (List Char) → Bool
  | none => true
  | some t => !t.contains '<' || ((t.dropWhile (· != '>')).tail.dropWhile isBlank).head? == some '('

/-- Whether the hook of the line is counted. -/
def isCounted (l : StateLine) : Bool := isRecognized l.type?

/-- The text of some lines; the last of them may have a line end too. -/
def source (lines : List StateLine) (isEnded : Bool) : List Char :=
  ['\n'].intercalate (lines.map text) ++ if isEnded then ['\n'] else []

end StateLine

/-! ## Hooks -/

/-- What stands for a type argument. -/
def IsTypeArgument (t : List Char) : Prop := t = [] ∨ ∃ u, u ≠ [] ∧ '>' ∉ u ∧ t = '<' :: (u ++ ['>'])

section

variable {t : List Char}

theorem fits_typeArgument_iff :
    (optional (inOrder [char (· == '<'), greedily 1 (· != '>'), char (· == '>')])).Fits t ↔ IsTypeArgument t := by
  simp only [fits_optional, fits_inOrder_cons, fits_inOrder_nil, fits_char_beq, fits_greedily, bne_iff_ne]
  constructor
  · rintro (⟨_, _, rfl, rfl, u, _, rfl, ⟨hlength, hu⟩, _, _, rfl, rfl, rfl⟩ | rfl)
    · exact .inr ⟨u, List.length_pos_iff.mp hlength, fun hmem => hu '>' hmem rfl, rfl⟩
    · exact .inl rfl
  · rintro (rfl | ⟨u, hne, hu, rfl⟩)
    · exact .inr rfl
    · have hother : ∀ x ∈ u, x ≠ '>' := by
        rintro x hx rfl
        exact hu hx
      have hlength : 1 ≤ u.length := List.length_pos_iff.mpr hne
      exact .inl ⟨['<'], u ++ ['>'], rfl, rfl, u, ['>'], rfl, ⟨hlength, hother⟩, ['>'], [], rfl, rfl, rfl⟩

theorem fits_stateHook_iff : Check.stateHook.Fits t ↔
    ∃ gap type gap', (∀ x ∈ gap, isBlank x = true) ∧ IsTypeArgument type ∧ (∀ x ∈ gap', isBlank x = true) ∧
      t = "useState".toList ++ (gap ++ (type ++ (gap' ++ ['(']))) := by
  simp only [Check.stateHook, fits_inOrder_cons, fits_inOrder_nil, fits_text, fits_blanks, fits_char_beq,
    fits_typeArgument_iff]
  constructor
  · rintro ⟨_, _, rfl, rfl, gap, _, rfl, ⟨-, hgap⟩, type, _, rfl, htype, gap', _, rfl, ⟨-, hgap'⟩, _, _, rfl, rfl, rfl⟩
    exact ⟨gap, type, gap', hgap, htype, hgap', rfl⟩
  · rintro ⟨gap, type, gap', hgap, htype, hgap', rfl⟩
    exact ⟨_, _, rfl, rfl, gap, _, rfl, ⟨Nat.zero_le _, hgap⟩, type, _, rfl, htype, gap', _, rfl,
      ⟨Nat.zero_le _, hgap'⟩, ['('], [], rfl, rfl, rfl⟩

end

/-! ## Types -/

/-- A text that is cut at its first `y` and at another character, which stands in front of the `y` or is it. -/
theorem append_cons_cases {u v a b : List Char} {y z : Char} (hy : y ∉ v) (h : u ++ y :: a = v ++ z :: b) :
    u = v ∧ y = z ∧ a = b ∨ ∃ d, u = v ++ z :: d ∧ b = d ++ y :: a := by
  rcases List.append_eq_append_iff.mp h with ⟨d, rfl, hd⟩ | ⟨d, rfl, hd⟩
  · cases d with
    | nil => exact .inl ⟨(List.append_nil u).symm, List.cons.inj hd⟩
    | cons e d =>
      obtain ⟨rfl, -⟩ := List.cons.inj hd
      exact absurd (List.mem_append_right u List.mem_cons_self) hy
  · cases d with
    | nil =>
      obtain ⟨rfl, rfl⟩ := List.cons.inj hd
      exact .inl ⟨List.append_nil v, rfl, rfl⟩
    | cons e d =>
      obtain ⟨rfl, rfl⟩ := List.cons.inj hd
      exact .inr ⟨d, rfl, rfl⟩

/-- The same of a text that begins with the `y`. -/
theorem cons_eq_append_cons {v a b : List Char} {y z : Char} (hy : y ∉ v) (h : y :: a = v ++ z :: b) :
    v = [] ∧ y = z ∧ a = b := by
  cases v with
  | nil => exact ⟨rfl, List.cons.inj h⟩
  | cons e v => exact absurd ((List.cons.inj h).1 ▸ List.mem_cons_self) hy

/-- Every bracket that is open is closed once. -/
theorem count_of_isBalanced {t : List Char} {depth : Nat} (h : isBalanced depth t = true) :
    depth + t.count '<' = t.count '>' := by
  induction t generalizing depth with
  | nil => simpa [isBalanced] using h
  | cons x t ih =>
    rw [isBalanced] at h
    split at h
    · subst x
      have hrest := ih h
      rw [List.count_cons_self, List.count_cons_of_ne (by decide)]
      omega
    · rename_i hopen
      rw [List.count_cons_of_ne hopen]
      split at h
      · subst x
        rw [Bool.and_eq_true, bne_iff_ne] at h
        have hrest := ih h.2
        rw [List.count_cons_self]
        omega
      · rename_i hclose
        rw [List.count_cons_of_ne hclose]
        exact ih h

/-- Balanced brackets are closed if there are any. -/
theorem mem_iff_of_isBalanced {t : List Char} (h : isBalanced 0 t = true) : '<' ∈ t ↔ '>' ∈ t := by
  rw [← List.count_pos_iff, ← List.count_pos_iff, ← count_of_isBalanced h, Nat.zero_add]

/-- Which types are recognized: the text behind the first bracket that is closed goes on with a parenthesis. -/
theorem isRecognized_iff {t : List Char} (h : isBalanced 0 t = true) : StateLine.isRecognized (some t) = true ↔
    '>' ∉ t ∨ ∃ u gap v, '>' ∉ u ∧ (∀ x ∈ gap, isBlank x = true) ∧ t = u ++ '>' :: (gap ++ '(' :: v) := by
  rw [StateLine.isRecognized, Bool.or_eq_true]
  refine or_congr ?_ ?_
  · rw [← mem_iff_of_isBalanced h]
    simp
  · rw [beq_iff_eq]
    constructor
    · intro hhead
      obtain ⟨u, rest, rfl, -, hu, hrest⟩ := Lexeme.takeWhile_split (· != '>') t
      rw [List.dropWhile_append_of_pos hu] at hhead
      cases rest with
      | nil => cases hhead
      | cons x rest =>
        have hx := hrest x rfl
        obtain ⟨gap, v, rfl, -, hgap, hv⟩ := Lexeme.takeWhile_split isBlank rest
        rw [List.dropWhile_cons_of_neg (by simp [hx]), List.tail_cons, List.dropWhile_append_of_pos hgap] at hhead
        obtain rfl : x = '>' := by simpa using hx
        cases v with
        | nil => cases hhead
        | cons y v =>
          rw [List.dropWhile_cons_of_neg (by simp [hv y rfl])] at hhead
          obtain rfl : y = '(' := Option.some.inj hhead
          exact ⟨u, gap, v, fun hmem => by simpa using hu '>' hmem, hgap, rfl⟩
    · rintro ⟨u, gap, v, hu, hgap, rfl⟩
      have hother : ∀ x ∈ u, (x != '>') = true := by
        intro x hx
        rw [bne_iff_ne]
        rintro rfl
        exact hu hx
      rw [List.dropWhile_append_of_pos hother, List.dropWhile_cons_of_neg (by decide), List.tail_cons,
        List.dropWhile_append_of_pos hgap, List.dropWhile_cons_of_neg (by decide)]
      rfl

/-! ## The hook of a line -/

section Hook

variable {type? : Option (List Char)} (hbalanced : ∀ t ∈ type?, isBalanced 0 t = true)
include hbalanced

/-- **What is matched at a hook** ends within its type argument, or with the parenthesis behind it. -/
theorem exists_of_fits_stateHook {t rest more : List Char} (ht : Check.stateHook.Fits t)
    (h : "useState".toList ++ (StateLine.typeArgument type? ++ '(' :: more) = t ++ rest) :
    StateLine.isRecognized type? = true ∧
      ∃ u v, StateLine.typeArgument type? ++ ['('] = u ++ v ∧ t = "useState".toList ++ u ∧ rest = v ++ more := by
  obtain ⟨gap, type, gap', hgap, htype, hgap', rfl⟩ := fits_stateHook_iff.mp ht
  have hbehind : StateLine.typeArgument type? ++ '(' :: more = gap ++ (type ++ (gap' ++ '(' :: rest)) := by
    simpa using h
  have hnone : ∀ {x : Char} {s : List Char}, isBlank x = false → (∀ y ∈ s, isBlank y = true) → x ∉ s := by
    intro x s hx hs hmem
    rw [hs x hmem] at hx
    cases hx
  cases type? with
  | none =>
    rcases htype with rfl | ⟨w, -, -, rfl⟩
    · have hopen : '(' ∉ gap ++ gap' := List.mem_append.not.mpr (not_or_intro (hnone rfl hgap) (hnone rfl hgap'))
      have hcut : '(' :: more = (gap ++ gap') ++ '(' :: rest := by simpa [StateLine.typeArgument] using hbehind
      obtain ⟨hnil, -, rfl⟩ := cons_eq_append_cons hopen hcut
      obtain ⟨rfl, rfl⟩ := List.append_eq_nil_iff.mp hnil
      exact ⟨rfl, ['('], [], rfl, rfl, rfl⟩
    · have hcut : '(' :: more = gap ++ '<' :: (w ++ '>' :: (gap' ++ '(' :: rest)) := by
        simpa [StateLine.typeArgument] using hbehind
      exact absurd (cons_eq_append_cons (hnone rfl hgap) hcut).2.1 (by decide)
  | some t =>
    rcases htype with rfl | ⟨w, -, hw, rfl⟩
    · have hopen : '<' ∉ gap ++ gap' := List.mem_append.not.mpr (not_or_intro (hnone rfl hgap) (hnone rfl hgap'))
      have hcut : '<' :: (t ++ '>' :: '(' :: more) = (gap ++ gap') ++ '(' :: rest := by
        simpa [StateLine.typeArgument] using hbehind
      exact absurd (cons_eq_append_cons hopen hcut).2.1 (by decide)
    · have hcut : '<' :: (t ++ '>' :: '(' :: more) = gap ++ '<' :: (w ++ '>' :: (gap' ++ '(' :: rest)) := by
        simpa [StateLine.typeArgument] using hbehind
      obtain ⟨rfl, -, hcut⟩ := cons_eq_append_cons (hnone rfl hgap) hcut
      rcases append_cons_cases hw hcut with ⟨rfl, -, hcut⟩ | ⟨d, rfl, hgoes⟩
      · obtain ⟨rfl, -, rfl⟩ := cons_eq_append_cons (hnone rfl hgap') hcut
        refine ⟨(isRecognized_iff (hbalanced t rfl)).mpr (.inl hw), '<' :: (t ++ ['>', '(']), [], ?_, ?_, rfl⟩
        · simp [StateLine.typeArgument]
        · simp
      · rcases append_cons_cases (hnone rfl hgap') hgoes.symm with ⟨-, heq, -⟩ | ⟨e, rfl, rfl⟩
        · exact absurd heq (by decide)
        · refine ⟨(isRecognized_iff (hbalanced _ rfl)).mpr (.inr ⟨w, gap', e, hw, hgap', rfl⟩),
            '<' :: (w ++ '>' :: (gap' ++ ['('])), e ++ ['>', '('], ?_, ?_, ?_⟩
          · simp [StateLine.typeArgument]
          · simp
          · simp

/-- A beginning of a recognized hook fits. -/
theorem exists_fits_of_isRecognized (hne : ∀ t ∈ type?, t ≠ []) (h : StateLine.isRecognized type? = true)
    (more : List Char) : ∃ t rest, "useState".toList ++ (StateLine.typeArgument type? ++ '(' :: more) = t ++ rest ∧
      Check.stateHook.Fits t := by
  have hblank : ∀ x ∈ ([] : List Char), isBlank x = true := List.forall_mem_nil _
  cases type? with
  | none =>
    refine ⟨"useState".toList ++ ['('], more, ?_, fits_stateHook_iff.mpr ⟨[], [], [], hblank, .inl rfl, hblank, rfl⟩⟩
    simp [StateLine.typeArgument]
  | some t =>
    rcases (isRecognized_iff (hbalanced t rfl)).mp h with hplain | ⟨u, gap, v, hu, hgap, rfl⟩
    · refine ⟨"useState".toList ++ ('<' :: (t ++ ['>'])) ++ ['('], more, ?_, fits_stateHook_iff.mpr
        ⟨[], _, [], hblank, .inr ⟨t, hne t rfl, hplain, rfl⟩, hblank, by simp⟩⟩
      simp [StateLine.typeArgument]
    · refine ⟨"useState".toList ++ ('<' :: (u ++ ['>'])) ++ (gap ++ ['(']), v ++ '>' :: '(' :: more, ?_,
        fits_stateHook_iff.mpr ⟨[], _, gap, hblank, .inr ⟨u, ?_, hu, rfl⟩, hgap, by simp⟩⟩
      · simp [StateLine.typeArgument]
      · rintro rfl
        have hclose := hbalanced _ rfl
        simp [isBalanced] at hclose

end Hook

/-! ## Counting -/

theorem plain_stateHook : Check.stateHook.Plain := by
  simp [Check.stateHook]

/-- Nothing is matched where no hook begins. -/
theorem matchAt?_stateHook {c : Cursor} (h : ¬ "useState".toList <+: c.rest) : Check.stateHook.matchAt? c = none := by
  rw [← Option.not_isSome_iff_eq_none, isSome_matchAt?_iff plain_stateHook]
  rintro ⟨t, rest, hrest, ht⟩
  obtain ⟨gap, type, gap', -, -, -, rfl⟩ := fits_stateHook_iff.mp ht
  apply h
  rw [hrest, List.append_assoc]
  exact List.prefix_append _ _

/-- **A hook is counted if it is recognized**, and the text behind it is passed over. -/
theorem length_scanFrom_hook {type? : Option (List Char)} (hne : ∀ t ∈ type?, t ≠ [])
    (hbalanced : ∀ t ∈ type?, isBalanced 0 t = true) {more after : List Char}
    (hclear : Clear "useState".toList after (StateLine.typeArgument type? ++ '(' :: more)) (last : Option Char)
    (offset : Nat) {hook : List Char}
    (hhook : hook = "useState".toList ++ (StateLine.typeArgument type? ++ '(' :: more)) :
    (Check.stateHook.scanFrom last offset 0 (hook ++ after)).length = (if StateLine.isRecognized type? then 1 else 0) +
      (Check.stateHook.scanFrom (Cursor.lastOf last hook) (offset + hook.length) 0 after).length := by
  have hafter : hook ++ after = "useState".toList ++ (StateLine.typeArgument type? ++ '(' :: (more ++ after)) := by
    simp [hhook]
  cases hm : Check.stateHook.matchAt? ⟨last, hook ++ after, offset, none⟩ with
  | none =>
    have hnot : StateLine.isRecognized type? = false := by
      by_contra hrecognized
      obtain ⟨t, rest, hsplit, ht⟩ :=
        exists_fits_of_isRecognized hbalanced hne (Bool.not_eq_false _ ▸ hrecognized) (more ++ after)
      exact not_fits_of_matchAt?_eq_none plain_stateHook hm (hafter.trans hsplit) ht
    have hword : "useState".toList = 'u' :: "seState".toList := rfl
    have hbehind : Clear "useState".toList after
        ("seState".toList ++ (StateLine.typeArgument type? ++ '(' :: more)) := by
      refine clear_append.mpr ⟨?_, hclear⟩
      rw [hword]
      exact clear_of_notMem (by decide)
    rw [hword, List.cons_append] at hhook
    subst hhook
    rw [List.cons_append] at hm
    rw [hnot, if_neg Bool.false_ne_true, Nat.zero_add, List.cons_append, scanFrom_of_eq_none hm,
      scanFrom_of_clear (fun _ => matchAt?_stateHook) hbehind, List.length_cons, Nat.add_right_comm]
    rfl
  | some m =>
    obtain ⟨t, rest, hrest, hwhole, ht⟩ := exists_fitting_of_matchAt? hm
    obtain ⟨hrecognized, u, v, huv, rfl, rfl⟩ := exists_of_fits_stateHook hbalanced ht (hafter.symm.trans hrest)
    have hargument : StateLine.typeArgument type? ++ '(' :: more = u ++ (v ++ more) := by
      rw [← List.append_assoc, ← huv, List.append_assoc]
      rfl
    rw [hargument] at hclear hhook
    rw [← List.append_assoc] at hhook
    subst hhook
    have hbehind : Clear "useState".toList after (v ++ more) := (clear_append.mp hclear).2
    have hne : "useState".toList ++ u ≠ [] := by simp
    have htext : m.whole.text = "useState".toList ++ u := by rw [hwhole]
    rw [List.append_assoc _ (v ++ more)] at hm ⊢
    rw [hrecognized, if_pos rfl, scanFrom_of_matchAt? hne hm htext, List.length_cons,
      scanFrom_of_clear (fun _ => matchAt?_stateHook) hbehind, ← Cursor.lastOf_append, Nat.add_comm 1,
      Nat.add_assoc offset, ← List.length_append]

/-! ## Lines -/

namespace StateLine

variable (l : StateLine)

/-- What stands before the hook of a line. -/
def opening : List Char := "const [".toList ++ l.state ++ ", ".toList ++ l.setter ++ "] =".toList

/-- What stands behind the parenthesis of the hook. -/
def ending : List Char := l.initial ++ ");".toList

theorem text_eq :
    l.text = (l.opening ++ [' ']) ++ ("useState".toList ++ (typeArgument l.type? ++ '(' :: l.ending)) := by
  have hliteral : "] = useState".toList = "] =".toList ++ ' ' :: "useState".toList := rfl
  unfold text opening ending
  rw [hliteral]
  simp only [List.append_assoc, List.cons_append, List.nil_append]
  rfl

/-- No hook begins in front of the hook of a line. -/
theorem clear_opening (after : List Char) : Clear "useState".toList after (l.opening ++ [' ']) := by
  have hspace : ' ' ∉ "useState".toList := by decide
  have hbracket : '[' ∉ "useState".toList := by decide
  have hcomma : ',' ∉ "useState".toList := by decide
  have hclose : ']' ∉ "useState".toList := by decide
  have hopening : l.opening =
      "const ".toList ++ '[' :: (l.state ++ ',' :: ([] ++ ' ' :: (l.setter ++ ']' :: " =".toList))) := by
    have hconst : "const [".toList = "const ".toList ++ ['['] := rfl
    have hcomma : ", ".toList = [',', ' '] := rfl
    have hclose : "] =".toList = ']' :: " =".toList := rfl
    unfold opening
    rw [hconst, hcomma, hclose]
    simp only [List.append_assoc, List.cons_append, List.nil_append]
  have hconst : occurs "useState".toList "const ".toList = false := by decide
  have hequals : occurs "useState".toList " =".toList = false := by decide
  have hnone : occurs "useState".toList l.opening = false := by
    rw [hopening, occurs_append_cons hbracket, occurs_append_cons hcomma, occurs_append_cons hspace,
      occurs_append_cons hclose, hconst, l.noHook_state, l.noHook_setter, hequals]
    rfl
  have hlast : Clear "useState".toList after [' '] := clear_of_notMem (by decide)
  exact clear_append.mpr ⟨clear_of_not_occurs hnone hspace fun c hc => (Option.some.inj hc).symm, hlast⟩

/-- No hook begins behind the hook of a line. -/
theorem clear_behind (after : List Char) :
    Clear "useState".toList after (typeArgument l.type? ++ '(' :: l.ending) := by
  have hopen : '(' ∉ "useState".toList := by decide
  have hclose : ')' ∉ "useState".toList := by decide
  have hless : '<' ∉ "useState".toList := by decide
  have hgreater : '>' ∉ "useState".toList := by decide
  have hlast : Clear "useState".toList after [';'] := clear_of_notMem (by decide)
  have hnil : occurs "useState".toList [] = false := by decide
  have htype : occurs "useState".toList (typeArgument l.type?) = false := by
    cases htype : l.type? with
    | none => exact hnil
    | some t =>
      have hargument : typeArgument (some t) = [] ++ '<' :: (t ++ '>' :: []) := rfl
      rw [hargument, occurs_append_cons hless, occurs_append_cons hgreater, l.noHook_type t htype, hnil]
      rfl
  have hnone : occurs "useState".toList (typeArgument l.type? ++ '(' :: (l.initial ++ ')' :: [])) = false := by
    rw [occurs_append_cons hopen, occurs_append_cons hclose, htype, l.noHook_initial, hnil]
    rfl
  have hending : typeArgument l.type? ++ '(' :: l.ending =
      (typeArgument l.type? ++ '(' :: (l.initial ++ ')' :: [])) ++ [';'] := by
    simp [ending]
  rw [hending]
  exact clear_append.mpr ⟨clear_of_not_occurs hnone (x := ';') (by decide) fun c hc => (Option.some.inj hc).symm, hlast⟩

/-- **A line has one hook or none**, whatever stands around it. -/
theorem length_scanFrom (last : Option Char) (offset : Nat) (after : List Char) :
    (Check.stateHook.scanFrom last offset 0 (l.text ++ after)).length = (if l.isCounted then 1 else 0) +
      (Check.stateHook.scanFrom (Cursor.lastOf last l.text) (offset + l.text.length) 0 after).length := by
  rw [text_eq, List.append_assoc, scanFrom_of_clear (fun _ => matchAt?_stateHook) (l.clear_opening _),
    length_scanFrom_hook l.type_ne_nil l.isBalanced_type (l.clear_behind after) _ _ rfl, ← Cursor.lastOf_append,
    Nat.add_assoc offset, ← List.length_append]
  rfl

theorem source_cons_cons (l' : StateLine) (lines : List StateLine) (isEnded : Bool) :
    source (l :: l' :: lines) isEnded = l.text ++ '\n' :: source (l' :: lines) isEnded := by
  simp only [source, List.map_cons, List.intercalate_cons_cons, List.append_assoc, List.cons_append, List.nil_append]

/-- **A scan finds one hook in each line that is counted**, and no others. -/
theorem length_scanFrom_source (lines : List StateLine) (isEnded : Bool) (last : Option Char) (offset : Nat) :
    (Check.stateHook.scanFrom last offset 0 (source lines isEnded)).length = lines.countP isCounted := by
  have hnil : ∀ {last : Option Char} {offset : Nat}, Check.stateHook.scanFrom last offset 0 [] = [] := by
    intro last offset
    rw [scanFrom, if_pos rfl, matchAt?_stateHook (by decide : ¬ "useState".toList <+: [])]
    rfl
  have hlineFeed : ∀ {last : Option Char} {offset : Nat} {t : List Char},
      Check.stateHook.scanFrom last offset 0 ('\n' :: t) = Check.stateHook.scanFrom (some '\n') (offset + 1) 0 t := by
    intro last offset t
    have hword : "useState".toList = 'u' :: "seState".toList := rfl
    refine scanFrom_of_eq_none (matchAt?_stateHook ?_)
    rw [hword]
    exact fun hprefix => absurd (List.cons_prefix_cons.mp hprefix).1 (by decide)
  have hend : ∀ {last : Option Char} {offset : Nat},
      Check.stateHook.scanFrom last offset 0 (if isEnded then ['\n'] else []) = [] := by
    intro last offset
    cases isEnded with
    | false => exact hnil
    | true => exact hlineFeed.trans hnil
  induction lines generalizing last offset with
  | nil => exact congrArg List.length hend
  | cons l lines ih =>
    rw [List.countP_cons, Nat.add_comm]
    cases lines with
    | nil =>
      rw [source, List.map_singleton, List.intercalate_singleton, l.length_scanFrom, hend]
      rfl
    | cons l' lines => rw [source_cons_cons, l.length_scanFrom, hlineFeed, ih]

end StateLine

/-! ## Warnings -/

/-- Whether a violation is about a number of state hooks. -/
def Violation.isOnStateHooks (v : Violation) : Bool := "Too many state hooks".toList.isPrefixOf v.message.toList

theorem Check.isOnStateHooks_fault_stateHooksMessage (s : Subject) (n : Nat) (category : Category)
    (severity : Severity) : (s.fault category (stateHooksMessage n) severity).isOnStateHooks = true := by
  have hliteral : "Too many state hooks".toList <+: "Too many state hooks (".toList := by decide
  show "Too many state hooks".toList.isPrefixOf (stateHooksMessage n).toList = true
  rw [List.isPrefixOf_iff_prefix]
  unfold stateHooksMessage
  rw [String.toList_append, String.toList_append, List.append_assoc]
  exact hliteral.trans (List.prefix_append _ _)

theorem Check.isOnStateHooks_fault_effectHooksMessage (s : Subject) (n : Nat) (category : Category)
    (severity : Severity) : (s.fault category (effectHooksMessage n) severity).isOnStateHooks = false := by
  have hliteral : "Too many state hooks".toList.head? = some 'T' := by decide
  show "Too many state hooks".toList.isPrefixOf (effectHooksMessage n).toList = false
  rw [← Bool.not_eq_true, List.isPrefixOf_iff_prefix]
  rintro ⟨rest, hrest⟩
  have hhead := head?_effectHooksMessage n
  rw [← hrest, List.head?_append, hliteral] at hhead
  cases hhead

/-- The warning about state hooks counts the matches of their pattern. -/
theorem Check.filter_hookComplexity (s : Subject) : (hookComplexity s).filter Violation.isOnStateHooks =
    if s.settings.maxStateHooks < (stateHook.scan s.text).length then
      [s.fault .businessLogic (stateHooksMessage (stateHook.scan s.text).length) .warning]
    else [] := by
  have hstates : ∀ n : Nat, (if s.settings.maxStateHooks < n then
      [s.fault .businessLogic (stateHooksMessage n) .warning] else []).filter Violation.isOnStateHooks =
      if s.settings.maxStateHooks < n then [s.fault .businessLogic (stateHooksMessage n) .warning] else [] := by
    intro n
    split
    · exact List.filter_cons_of_pos (isOnStateHooks_fault_stateHooksMessage ..)
    · rfl
  have heffects : ∀ n : Nat, (if s.settings.maxEffectHooks < n then
      [s.fault .businessLogic (effectHooksMessage n) .warning] else []).filter Violation.isOnStateHooks = [] := by
    intro n
    split
    · exact List.filter_cons_of_neg (by simp [isOnStateHooks_fault_effectHooksMessage])
    · rfl
  rw [hookComplexity, List.filter_append]
  exact (congrArg₂ (· ++ ·) (hstates _) (heffects _)).trans (List.append_nil _)

/-- **The state hooks of lines that declare a state each** are counted where they are recognized: there is a warning if
they are more than the settings allow, and it names their number. -/
theorem Check.filter_hookComplexity_source (s : Subject) (lines : List StateLine) (isEnded : Bool) :
    (hookComplexity { s with text := StateLine.source lines isEnded }).filter Violation.isOnStateHooks =
      if s.settings.maxStateHooks < lines.countP StateLine.isCounted then
        [s.fault .businessLogic (stateHooksMessage (lines.countP StateLine.isCounted)) .warning]
      else [] := by
  have hcount : (stateHook.scan (StateLine.source lines isEnded)).length = lines.countP StateLine.isCounted :=
    StateLine.length_scanFrom_source lines isEnded none 0
  rw [filter_hookComplexity, hcount]
  rfl

/-- A line with a type argument that has a type argument of its own. -/
def StateLine.nestedType : StateLine where
  state := "a".toList
  setter := "b".toList
  type? := some "Array<string>".toList
  initial := "[]".toList
  noHook_state := by decide
  noHook_setter := by decide
  noHook_initial := by decide
  noHook_type := by decide
  type_ne_nil := by decide
  isBalanced_type := by decide

/-- **Not every line is counted**: there is no warning about six hooks whose types have type arguments of their own. -/
theorem Check.not_forall_stateHook_counted : ¬ ∀ (s : Subject) (lines : List StateLine) (isEnded : Bool),
    (hookComplexity { s with text := StateLine.source lines isEnded }).filter Violation.isOnStateHooks =
      if s.settings.maxStateHooks < lines.length then
        [s.fault .businessLogic (stateHooksMessage lines.length) .warning]
      else [] := by
  intro h
  let s : Subject := { settings := { }, file := "a.tsx", rule := { location := "a.tsx" }, text := [] }
  have hnone : hookComplexity { s with text := StateLine.source (List.replicate 6 .nestedType) true } = [] := by
    decide +kernel
  have hsix := h s (List.replicate 6 .nestedType) true
  rw [hnone, if_pos (by decide)] at hsix
  cases hsix

end Conformance
