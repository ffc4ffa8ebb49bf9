import Conformance.Json.Basic
import Conformance.Proofs.Text.Numeral

/-!
# A reader of JSON texts

The reader goes over a text once and takes one character at a time (`Reader.step`). It holds the arrays and objects that
are open, and what is read so far of a word or a string. Words are numbers and the names of constants; they are kept as
they are written. A comma or a colon only ends a word, as white space does, so the layout of a text does not matter.

Every character of a string is read back from its escape (`Reader.run_charText`), and hence every string
(`Reader.run_stringText`), whether or not the text is restricted to ASCII characters. A word is read back where a
delimiter follows it (`Reader.run_word`).
-/

namespace Conformance.Json

/-! ## Trees -/

/-- A value as its text tells it. -/
inductive Tree where
  /-- A number, or the name of a constant. -/
  | word (w : String)
  | text (s : String)
  | array (elements : List Tree)
  | object (members : List (String × Tree))

/-- The member of an object. -/
def Tree.member? (key : String) : Tree → Option Tree
  | .object members => members.lookup key
  | _ => none

/-! ## Strings -/

/-- The characters that 16-bit units and code points tell: the two halves of a pair are one character. -/
def joined : List Nat → List Char
  | high :: low :: ns =>
    if 0xd800 ≤ high ∧ high < 0xdc00 then
      Char.ofNat (0x10000 + (high - 0xd800) * 0x400 + (low - 0xdc00)) :: joined ns
    else Char.ofNat high :: joined (low :: ns)
  | [n] => [Char.ofNat n]
  | [] => []

/-- The units as which a character stands in a string. -/
def units (ascii : Bool) (c : Char) : List Nat :=
  if ascii ∧ 0x10000 ≤ c.toNat then
    [0xd800 + (c.toNat - 0x10000) / 0x400, 0xdc00 + (c.toNat - 0x10000) % 0x400]
  else [c.toNat]

theorem units_of_lt {ascii : Bool} {c : Char} (h : c.toNat < 0x10000) : units ascii c = [c.toNat] :=
  if_neg fun hwide => absurd h (Nat.not_lt.mpr hwide.2)

/-- What a letter behind a backslash stands for. -/
def escaped (c : Char) : Char :=
  if c = 'n' then '\n' else if c = 'r' then '\r' else if c = 't' then '\t' else if c = 'f' then '\x0c'
  else if c = 'b' then '\x08' else c

theorem joined_units (ascii : Bool) (c : Char) (ns : List Nat) : joined (units ascii c ++ ns) = c :: joined ns := by
  have hvalid : c.toNat < 0xd800 ∨ 0xdfff < c.toNat ∧ c.toNat < 0x110000 := c.valid
  rw [units]
  split
  case isTrue hwide =>
    obtain ⟨-, hwide⟩ := hwide
    have hhigh : 0xd800 + (c.toNat - 0x10000) / 0x400 < 0xdc00 := by omega
    have hcode : 0x10000 + (0xd800 + (c.toNat - 0x10000) / 0x400 - 0xd800) * 0x400 +
        (0xdc00 + (c.toNat - 0x10000) % 0x400 - 0xdc00) = c.toNat := by omega
    rw [List.cons_append, List.cons_append, List.nil_append, joined, if_pos ⟨by omega, hhigh⟩, hcode, Char.ofNat_toNat]
  case isFalse =>
    rw [List.singleton_append]
    cases ns with
    | nil => rw [joined, joined, Char.ofNat_toNat]
    | cons n ns => rw [joined, if_neg (by omega), Char.ofNat_toNat]

/-- **The units of a string tell its characters.** -/
theorem joined_flatMap_units (ascii : Bool) (cs : List Char) : joined (cs.flatMap (units ascii)) = cs := by
  induction cs with
  | nil => rfl
  | cons c cs ih => rw [List.flatMap_cons, joined_units, ih]

/-! ## The reader -/

/-- An array or an object that is open. -/
inductive Frame where
  | array (elements : List Tree)
  /-- A key may wait for its value. -/
  | object (members : List (String × Tree)) (key : Option String)

/-- The value is put behind those that are there. Where no key waits in an object, it is the next key. -/
def Frame.add? : Frame → Tree → Option Frame
  | .array elements, t => some (.array (elements ++ [t]))
  | .object members (some key), t => some (.object (members ++ [(key, t)]) none)
  | .object members none, .text key => some (.object members (some key))
  | .object _ none, _ => none

/-- Where a reader is. -/
inductive Place where
  /-- Between values. -/
  | between
  | word (read : List Char)
  /-- In a string. -/
  | text (read : List Nat)
  /-- Behind a backslash. -/
  | escape (read : List Nat)
  /-- In an escape of which so many digits are left. -/
  | digits (read : List Nat) (left value : Nat)

structure Reader where
  /-- The innermost of the arrays and objects that are open. -/
  frame : Frame
  /-- The others, from the inside. -/
  outer : List Frame
  place : Place

/-- The characters at which a word ends. -/
def delimiters : List Char := [',', ':', ' ', '\n', '\r', '\t', '[', ']', '{', '}', '"']

namespace Reader

/-- The reader behind a value. -/
def add? (r : Reader) (t : Tree) : Option Reader := (r.frame.add? t).map fun frame => ⟨frame, r.outer, .between⟩

/-- The reader behind the innermost array or object, which its bracket closes. -/
def close? (r : Reader) (bracket : Char) : Option Reader :=
  match r.frame, bracket, r.outer with
  | .array elements, ']', frame :: outer => add? ⟨frame, outer, .between⟩ (.array elements)
  | .object members none, '}', frame :: outer => add? ⟨frame, outer, .between⟩ (.object members)
  | _, _, _ => none

/-- A character between values. -/
def enter? (r : Reader) (c : Char) : Option Reader :=
  if c = '[' then some ⟨.array [], r.frame :: r.outer, .between⟩
  else if c = '{' then some ⟨.object [] none, r.frame :: r.outer, .between⟩
  else if c = ']' ∨ c = '}' then r.close? c
  else if c = '"' then some ⟨r.frame, r.outer, .text []⟩
  else if c ∈ delimiters then some ⟨r.frame, r.outer, .between⟩
  else some ⟨r.frame, r.outer, .word [c]⟩

/-- The next character. -/
def step (r : Reader) (c : Char) : Option Reader :=
  match r.place with
  | .between => r.enter? c
  | .word read =>
    if c ∈ delimiters then (r.add? (.word (.ofList read))).bind (·.enter? c)
    else some ⟨r.frame, r.outer, .word (read ++ [c])⟩
  | .text read =>
    if c = '"' then r.add? (.text (.ofList (joined read)))
    else if c = '\\' then some ⟨r.frame, r.outer, .escape read⟩
    else some ⟨r.frame, r.outer, .text (read ++ [c.toNat])⟩
  | .escape read =>
    if c = 'u' then some ⟨r.frame, r.outer, .digits read 4 0⟩
    else some ⟨r.frame, r.outer, .text (read ++ [(escaped c).toNat])⟩
  | .digits read left value =>
    (Text.hexDigitValue? c).map fun digit =>
      if left = 1 then ⟨r.frame, r.outer, .text (read ++ [16 * value + digit])⟩
      else ⟨r.frame, r.outer, .digits read (left - 1) (16 * value + digit)⟩

/-- The reader behind a text. -/
def run (r : Reader) (cs : List Char) : Option Reader := cs.foldlM step r

@[simp] theorem run_nil (r : Reader) : r.run [] = some r := rfl

@[simp] theorem run_cons (r : Reader) (c : Char) (cs : List Char) : r.run (c :: cs) = (r.step c).bind (·.run cs) := rfl

theorem step_between (frame : Frame) (outer : List Frame) (c : Char) :
    step ⟨frame, outer, .between⟩ c = enter? ⟨frame, outer, .between⟩ c := rfl

theorem step_word (frame : Frame) (outer : List Frame) (read : List Char) (c : Char) :
    step ⟨frame, outer, .word read⟩ c =
      if c ∈ delimiters then (add? ⟨frame, outer, .between⟩ (.word (.ofList read))).bind (·.enter? c)
      else some ⟨frame, outer, .word (read ++ [c])⟩ := rfl

theorem step_text (frame : Frame) (outer : List Frame) (read : List Nat) (c : Char) :
    step ⟨frame, outer, .text read⟩ c =
      if c = '"' then add? ⟨frame, outer, .between⟩ (.text (.ofList (joined read)))
      else if c = '\\' then some ⟨frame, outer, .escape read⟩
      else some ⟨frame, outer, .text (read ++ [c.toNat])⟩ := rfl

theorem step_escape (frame : Frame) (outer : List Frame) (read : List Nat) (c : Char) :
    step ⟨frame, outer, .escape read⟩ c =
      if c = 'u' then some ⟨frame, outer, .digits read 4 0⟩
      else some ⟨frame, outer, .text (read ++ [(escaped c).toNat])⟩ := rfl

theorem step_digits (frame : Frame) (outer : List Frame) (read : List Nat) (left value : Nat) (c : Char) :
    step ⟨frame, outer, .digits read left value⟩ c = (Text.hexDigitValue? c).map fun digit =>
      if left = 1 then ⟨frame, outer, .text (read ++ [16 * value + digit])⟩
      else ⟨frame, outer, .digits read (left - 1) (16 * value + digit)⟩ := rfl

theorem run_append (r : Reader) (cs ds : List Char) : r.run (cs ++ ds) = (r.run cs).bind (·.run ds) :=
  List.foldlM_append

end Reader

/-- The value that a text tells, if it is one value. -/
def read? (cs : List Char) : Option Tree :=
  -- A word at the end of the text is ended by the line feed.
  match Reader.run ⟨.array [], [], .between⟩ (cs ++ ['\n']) with
  | some ⟨.array [t], [], .between⟩ => some t
  | _ => none

namespace Reader

variable {frame : Frame} {outer : List Frame}

/-! ## Reading strings -/

theorem step_digitChar {n : Nat} (hn : n < 16) (read : List Nat) (left value : Nat) :
    step ⟨frame, outer, .digits read (left + 2) value⟩ n.digitChar =
      some ⟨frame, outer, .digits read (left + 1) (16 * value + n)⟩ := by
  rw [step_digits, Text.hexDigitValue?_digitChar hn]
  rfl

theorem step_lastDigitChar {n : Nat} (hn : n < 16) (read : List Nat) (value : Nat) :
    step ⟨frame, outer, .digits read 1 value⟩ n.digitChar =
      some ⟨frame, outer, .text (read ++ [16 * value + n])⟩ := by
  rw [step_digits, Text.hexDigitValue?_digitChar hn]
  rfl

/-- The escape of a unit is read. -/
theorem run_unitEscape {n : Nat} (hn : n < 0x10000) (read : List Nat) :
    run ⟨frame, outer, .text read⟩ (unitEscape n) = some ⟨frame, outer, .text (read ++ [n])⟩ := by
  have hopen (ds : List Char) : run ⟨frame, outer, .text read⟩ ('\\' :: 'u' :: ds) =
      run ⟨frame, outer, .digits read 4 0⟩ ds := rfl
  have hvalue : 16 * (16 * (16 * (16 * 0 + n / 16 / 16 / 16) + n / 16 / 16 % 16) + n / 16 % 16) + n % 16 = n := by
    omega
  rw [unitEscape, Text.hexadecimal_four hn, hopen, run_cons, step_digitChar (by omega), Option.bind_some, run_cons,
    step_digitChar (by omega), Option.bind_some, run_cons, step_digitChar (by omega), Option.bind_some, run_cons,
    step_lastDigitChar (by omega), Option.bind_some, run_nil, hvalue]

/-- The escapes of the two halves of a pair are read. -/
theorem run_pairEscape {c : Char} (hwide : 0x10000 ≤ c.toNat) (read : List Nat) :
    run ⟨frame, outer, .text read⟩ (unitEscape (0xd800 + (c.toNat - 0x10000) / 0x400) ++
      unitEscape (0xdc00 + (c.toNat - 0x10000) % 0x400)) = some ⟨frame, outer, .text (read ++ units true c)⟩ := by
  have hvalid : c.toNat < 0xd800 ∨ 0xdfff < c.toNat ∧ c.toNat < 0x110000 := c.valid
  rw [run_append, run_unitEscape (by omega), Option.bind_some, run_unitEscape (by omega), units,
    if_pos ⟨rfl, hwide⟩, List.append_assoc, List.singleton_append]

/-- A short escape is read. -/
theorem run_shortEscape {e : Char} (he : e ≠ 'u') (read : List Nat) :
    run ⟨frame, outer, .text read⟩ ['\\', e] = some ⟨frame, outer, .text (read ++ [(escaped e).toNat])⟩ := by
  have hopen : step ⟨frame, outer, .text read⟩ '\\' = some ⟨frame, outer, .escape read⟩ := rfl
  rw [run_cons, hopen, Option.bind_some, run_cons, step_escape, if_neg he, Option.bind_some, run_nil]

/-- **A character is read from its text in a string.** -/
theorem run_charText (ascii : Bool) (c : Char) (read : List Nat) :
    run ⟨frame, outer, .text read⟩ (charText ascii c) = some ⟨frame, outer, .text (read ++ units ascii c)⟩ := by
  have hshort (e : Char) (he : e ≠ 'u') (hlt : (escaped e).toNat < 0x10000) (hc : c = escaped e) :
      run ⟨frame, outer, .text read⟩ ['\\', e] = some ⟨frame, outer, .text (read ++ units ascii c)⟩ := by
    rw [run_shortEscape he, hc, units_of_lt hlt]
  rw [charText]
  by_cases hquote : c = '"'
  · rw [if_pos hquote]
    exact hshort '"' (by decide) (by decide) hquote
  by_cases hbackslash : c = '\\'
  · rw [if_neg hquote, if_pos hbackslash]
    exact hshort '\\' (by decide) (by decide) hbackslash
  rw [if_neg hquote, if_neg hbackslash]
  split
  next hline => exact hshort 'n' (by decide) (by decide) hline
  split
  next hreturn => exact hshort 'r' (by decide) (by decide) hreturn
  split
  next htab => exact hshort 't' (by decide) (by decide) htab
  split
  next hpage => exact hshort 'f' (by decide) (by decide) hpage
  split
  next hback => exact hshort 'b' (by decide) (by decide) hback
  split
  case isTrue hunit =>
    simp only [Bool.or_eq_true, Bool.and_eq_true, decide_eq_true_eq] at hunit
    have hn : c.toNat < 0x10000 := by omega
    rw [run_unitEscape hn, units_of_lt hn]
  case isFalse hunit =>
    split
    case isTrue hpair =>
      simp only [Bool.or_eq_true, Bool.and_eq_true, decide_eq_true_eq] at hunit hpair
      obtain ⟨rfl, hlow⟩ := hpair
      rw [eq_self, true_and] at hunit
      exact run_pairEscape (by omega) read
    case isFalse hpair =>
      simp only [Bool.and_eq_true, decide_eq_true_eq] at hpair
      have hplain : ¬ (ascii = true ∧ 0x10000 ≤ c.toNat) := fun h => hpair ⟨h.1, by omega⟩
      rw [run_cons, step_text, if_neg hquote, if_neg hbackslash, units, if_neg hplain]
      rfl

theorem run_charTexts (ascii : Bool) (cs : List Char) (read : List Nat) :
    run ⟨frame, outer, .text read⟩ (cs.flatMap (charText ascii)) =
      some ⟨frame, outer, .text (read ++ cs.flatMap (units ascii))⟩ := by
  induction cs generalizing read with
  | nil => simp
  | cons c cs ih =>
    rw [List.flatMap_cons, run_append, run_charText, Option.bind_some, ih, List.flatMap_cons, List.append_assoc]

/-- **A string is read from its text.** -/
theorem run_stringText (ascii : Bool) (s : String) :
    run ⟨frame, outer, .between⟩ (stringText ascii s) = add? ⟨frame, outer, .between⟩ (.text s) := by
  have hopen : step ⟨frame, outer, .between⟩ '"' = some ⟨frame, outer, .text []⟩ := rfl
  have hclose (read : List Nat) : step ⟨frame, outer, .text read⟩ '"' =
      add? ⟨frame, outer, .between⟩ (.text (.ofList (joined read))) := rfl
  rw [stringText, List.cons_append, run_cons, hopen, Option.bind_some, run_append, run_charTexts, Option.bind_some,
    run_cons, hclose, List.nil_append, joined_flatMap_units, String.ofList_toList]
  simp

/-! ## Reading words -/

theorem enter?_of_notMem {c : Char} (hc : c ∉ delimiters) :
    enter? ⟨frame, outer, .between⟩ c = some ⟨frame, outer, .word [c]⟩ := by
  have hne := hc
  simp only [delimiters, List.mem_cons, not_or] at hne
  simp [enter?, hc, hne]

/-- A word goes on. -/
theorem run_word_append {w rest : List Char} (hw : ∀ c ∈ w, c ∉ delimiters) (read : List Char) :
    run ⟨frame, outer, .word read⟩ (w ++ rest) = run ⟨frame, outer, .word (read ++ w)⟩ rest := by
  induction w generalizing read with
  | nil => simp
  | cons c w ih =>
    obtain ⟨hc, hw⟩ := List.forall_mem_cons.mp hw
    rw [List.cons_append, run_cons, step_word, if_neg hc, Option.bind_some, ih hw, List.append_assoc]
    rfl

/-- A number or the name of a constant. -/
def IsWord (w : List Char) : Prop := w ≠ [] ∧ ∀ c ∈ w, c ∉ delimiters

theorem isWord_iff {w : List Char} : IsWord w ↔ (!w.isEmpty && w.all (!delimiters.contains ·)) = true := by
  simp [IsWord]

instance (w : List Char) : Decidable (IsWord w) := decidable_of_iff _ isWord_iff.symm

/-- A word that stands before the text ends there. -/
def EndsWord (rest : List Char) : Prop := ∃ c ∈ delimiters, ∃ t, rest = c :: t

theorem endsWord_cons {c : Char} (hc : c ∈ delimiters) (t : List Char) : EndsWord (c :: t) := ⟨c, hc, t, rfl⟩

/-- **A word is read where a delimiter follows.** -/
theorem run_word {w : String} {rest : List Char} (hw : IsWord w.toList) (hrest : EndsWord rest) :
    run ⟨frame, outer, .between⟩ (w.toList ++ rest) =
      (add? ⟨frame, outer, .between⟩ (.word w)).bind (·.run rest) := by
  obtain ⟨c, hc, t, rfl⟩ := hrest
  obtain ⟨x, xs, hxs⟩ := List.exists_cons_of_ne_nil hw.1
  have hall := hw.2
  rw [hxs] at hall ⊢
  obtain ⟨hx, hall⟩ := List.forall_mem_cons.mp hall
  rw [List.cons_append, run_cons, step_between, enter?_of_notMem hx, Option.bind_some, run_word_append hall, run_cons,
    step_word, if_pos hc, List.singleton_append, ← hxs, String.ofList_toList, Option.bind_assoc, add?]
  cases frame.add? (.word w) <;> rfl

end Reader

end Conformance.Json
