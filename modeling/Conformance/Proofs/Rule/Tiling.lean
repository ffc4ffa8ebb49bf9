import Mathlib.Data.List.Forall2
import Conformance.Rule.Token
import Conformance.Proofs.Rule.Lexeme
import Conformance.Proofs.Text.Position

/-!
# Tokens in their text

The lexemes of a text tile it: each of them is a tile that starts where the one before it stops (`mem_tiles`,
`pairwise_tiles`, `exists_tile`). Placing a lexeme gives the position of its tile (`place_eq`), so tokens and
diagnostics can be found again in the text.

`Tokenization` lists what a reader of the tokens may rely on: where they stand, what stands there, and what becomes of
the characters that belong to no token. The tokens and diagnostics of every text have it (`exists_tokenization`).
-/

namespace Conformance

open Text (positionAt)

/-- A piece of a text, from one offset to another. -/
structure Extent where
  start : Nat
  stop : Nat
deriving DecidableEq, Repr

namespace Extent

def text (s : Extent) (all : List Char) : List Char := (all.drop s.start).take (s.stop - s.start)

def Has (s : Extent) (i : Nat) : Prop := s.start ≤ i ∧ i < s.stop

def Before (s t : Extent) : Prop := s.stop ≤ t.start

end Extent

/-! ## What tokens and comments occupy -/

/-- What a token is made of: a string of its quotes and a body that spells its value, any other token of its value. A
string has no closing quote iff there is a problem at its position that says so. -/
def Token.SpelledBy (t : Token) (ds : List Diagnostic) (piece : List Char) : Prop :=
  if t.kind = .string then
    ∃ closed body, piece = '"' :: (body ++ if closed then ['"'] else []) ∧ '\n' ∉ body ∧
      Lexeme.Spells closed body t.value.toList ∧ (closed = false ↔ ⟨t.position, .unclosedString⟩ ∈ ds)
  else piece = t.value.toList

/-- A token and the piece of the text that it occupies. -/
structure Token.Occupies (all : List Char) (ds : List Diagnostic) (t : Token) (s : Extent) : Prop where
  nonempty : s.start < s.stop
  inside : s.stop ≤ all.length
  position : t.position = positionAt all s.start
  spelled : t.SpelledBy ds (s.text all)

/-- Comments: from `#` or two slashes to the end of the line, or from slash-star to the first star-slash, without
which it goes on to the end of the text. -/
inductive Extent.IsComment (all : List Char) (s : Extent) : Prop
  | line {opening t : List Char} : opening ∈ [['#'], ['/', '/']] → s.text all = opening ++ t → '\n' ∉ t →
      Lexeme.EndsLine (all.drop s.stop) → IsComment all s
  | closed {t : List Char} : s.text all = '/' :: '*' :: (t ++ ['*', '/']) → Lexeme.NoClose (t ++ ['*']) →
      IsComment all s
  | open {t : List Char} : s.text all = '/' :: '*' :: t → Lexeme.NoClose t → s.stop = all.length → IsComment all s

/-- Characters that start no token, comment or blank. -/
def IsStray (c : Char) : Prop :=
  Text.isBlank c = false ∧ Lexeme.isWordChar c = false ∧ Lexeme.isMark c = false ∧ c ≠ '#' ∧ c ≠ '"'

/-- The tokens `ts` and diagnostics `ds` account for every character of a text: the tokens occupy `extents`, and what
lies outside is blank, lies in one of `comments`, or is reported as stray, once and at its own position. -/
structure Tokenization (all : List Char) (ts : List Token) (ds : List Diagnostic) (extents comments : List Extent) :
    Prop where
  occupied : List.Forall₂ (Token.Occupies all ds) ts extents
  ordered : extents.Pairwise Extent.Before
  comment : ∀ s ∈ comments, s.IsComment all
  apart : ∀ c ∈ comments, ∀ s ∈ extents, c.Before s ∨ s.Before c
  outside : ∀ (i : Nat) (hi : i < all.length), (∀ s ∈ extents, ¬ s.Has i) →
    Text.isBlank all[i] = true ∨ (∃ c ∈ comments, c.Has i) ∨
      IsStray all[i] ∧ ds.filter (·.position = positionAt all i) = [⟨positionAt all i, .strayCharacter all[i]⟩]
  increasing : ds.Pairwise (·.position.Before ·.position)

/-! ## Tiles -/

/-- A lexeme and the offset at which it starts. -/
structure Tile where
  start : Nat
  lexeme : Lexeme
deriving DecidableEq, Repr

namespace Tile

def stop (t : Tile) : Nat := t.start + t.lexeme.text.length

def extent (t : Tile) : Extent := ⟨t.start, t.stop⟩

/-- The tile with its position instead of its offset. -/
def place (all : List Char) (t : Tile) : PlacedLexeme := ⟨t.lexeme, positionAt all t.start⟩

end Tile

/-- The tiles of lexemes one after the other, the first of them at `n`. -/
def tiles (n : Nat) : List Lexeme → List Tile
  | [] => []
  | l :: ls => ⟨n, l⟩ :: tiles (n + l.text.length) ls

theorem Lexeme.Stands.text_ne_nil {l : Lexeme} {rest : List Char} (h : l.Stands rest) : l.text ≠ [] := by
  obtain ⟨c, cs, htext, -⟩ := h.classify_eq
  simp [htext]

/-- A tile lies in the text `all`: its lexeme stands there, before the characters that follow. -/
def Tile.Lies (all : List Char) (t : Tile) : Prop :=
  ∃ before after, all = before ++ (t.lexeme.text ++ after) ∧ before.length = t.start ∧ t.lexeme.Stands after

theorem mem_tiles {before after : List Char} {ls : List Lexeme} (h : Lexeme.Cut after ls) :
    ∀ t ∈ tiles before.length ls, t.Lies (before ++ after) := by
  induction h generalizing before with
  | nil => simp [tiles]
  | @cons l rest ls hl _ ih =>
    refine List.forall_mem_cons.mpr ⟨⟨before, rest, rfl, rfl, hl⟩, fun t ht => ?_⟩
    rw [← List.append_assoc]
    exact ih t (by simpa using ht)

/-- Later tiles start at or after the offset at which tiling starts. -/
theorem le_of_mem_tiles {n : Nat} {ls : List Lexeme} {t : Tile} (h : t ∈ tiles n ls) : n ≤ t.start := by
  induction ls generalizing n with
  | nil => cases h
  | cons l ls ih =>
    rcases List.mem_cons.mp h with rfl | h
    · exact Nat.le_refl _
    · exact Nat.le_trans (Nat.le_add_right _ _) (ih h)

theorem pairwise_tiles (n : Nat) (ls : List Lexeme) : (tiles n ls).Pairwise fun t u => t.stop ≤ u.start := by
  induction ls generalizing n with
  | nil => exact .nil
  | cons l ls ih => exact .cons (fun t ht => le_of_mem_tiles ht) (ih _)

/-- Every character lies in a tile. -/
theorem exists_tile {n i : Nat} {ls : List Lexeme} (hn : n ≤ i) (hi : i < n + (ls.flatMap (·.text)).length) :
    ∃ t ∈ tiles n ls, t.extent.Has i := by
  induction ls generalizing n with
  | nil => simp at hi; omega
  | cons l ls ih =>
    by_cases hl : i < n + l.text.length
    · exact ⟨⟨n, l⟩, by simp [tiles], hn, hl⟩
    · have hlen : (l :: ls).flatMap (·.text) = l.text ++ ls.flatMap (·.text) := List.flatMap_cons
      rw [hlen, List.length_append] at hi
      obtain ⟨t, ht, hti⟩ := @ih (n + l.text.length) (by omega) (by omega)
      exact ⟨t, List.mem_cons_of_mem _ ht, hti⟩

theorem place_eq (before : List Char) (ls : List Lexeme) :
    PlacedLexeme.place (Text.Position.start.advance before) ls =
      (tiles before.length ls).map (Tile.place (before ++ ls.flatMap (·.text))) := by
  induction ls generalizing before with
  | nil => rfl
  | cons l ls ih =>
    have h := ih (before ++ l.text)
    rw [Text.Position.advance_append, List.length_append, List.append_assoc] at h
    simp [PlacedLexeme.place, tiles, Tile.place, Text.positionAt_append, h]

/-- The tiles of a text. -/
def tilesOf (all : List Char) : List Tile := tiles 0 (Lexeme.lexemes all)

theorem placed_eq (all : List Char) : PlacedLexeme.ofText all = (tilesOf all).map (Tile.place all) := by
  have h := place_eq [] (Lexeme.lexemes all)
  rwa [List.nil_append, Lexeme.flatMap_text_lexemes] at h

theorem lies_of_mem {all : List Char} {t : Tile} (h : t ∈ tilesOf all) : t.Lies all :=
  @mem_tiles [] all _ (Lexeme.cut_lexemes all) t h

theorem tokens_eq (all : List Char) :
    Token.ofText all = (tilesOf all).filterMap fun t => (t.place all).token? := by
  rw [Token.ofText, placed_eq, List.filterMap_map]; rfl

theorem diagnostics_eq (all : List Char) :
    Token.diagnosticsOfText all = (tilesOf all).filterMap fun t => (t.place all).diagnostic? := by
  rw [Token.diagnosticsOfText, placed_eq, List.filterMap_map]; rfl

namespace Tile.Lies

variable {all : List Char} {t : Tile}

theorem stop_le (h : t.Lies all) : t.stop ≤ all.length := by
  obtain ⟨before, after, rfl, hlen, -⟩ := h
  simp [Tile.stop, ← hlen]

theorem start_lt (h : t.Lies all) : t.start < t.stop := by
  obtain ⟨before, after, -, -, hs⟩ := h
  exact Nat.lt_add_of_pos_right (List.length_pos_iff.mpr hs.text_ne_nil)

theorem text_eq (h : t.Lies all) : t.extent.text all = t.lexeme.text := by
  obtain ⟨before, after, rfl, hlen, -⟩ := h
  simp [Extent.text, Tile.extent, Tile.stop, ← hlen]

theorem stands (h : t.Lies all) : t.lexeme.Stands (all.drop t.stop) := by
  obtain ⟨before, after, rfl, hlen, hs⟩ := h
  have hdrop : (before ++ (t.lexeme.text ++ after)).drop t.stop = after := by
    simp [Tile.stop, ← hlen]
  rwa [hdrop]

theorem getElem_mem (h : t.Lies all) {i : Nat} (hi : t.extent.Has i) (hlt : i < all.length) :
    all[i] ∈ t.lexeme.text := by
  obtain ⟨before, after, rfl, hlen, -⟩ := h
  obtain ⟨hstart, hstop⟩ := hi
  have hb : before.length ≤ i := by rw [hlen]; exact hstart
  have ht : i - before.length < t.lexeme.text.length := by
    simp only [Tile.extent, Tile.stop] at hstop
    omega
  rw [List.getElem_append_right hb, List.getElem_append_left ht]
  exact List.getElem_mem ht

end Tile.Lies

/-- Tiles that are the same or do not meet. -/
def Tile.Apart (t u : Tile) : Prop := t = u ∨ t.stop ≤ u.start ∨ u.stop ≤ t.start

theorem apart_of_mem {all : List Char} {t u : Tile} (ht : t ∈ tilesOf all) (hu : u ∈ tilesOf all) : t.Apart u := by
  have hpair := pairwise_tiles 0 (Lexeme.lexemes all)
  have hfst : (tilesOf all).Pairwise Tile.Apart := hpair.imp fun h => Or.inr (Or.inl h)
  have hsnd : (tilesOf all).Pairwise (flip Tile.Apart) := hpair.imp fun h => Or.inr (Or.inr h)
  have hrefl : ∀ t ∈ tilesOf all, t.Apart t := fun t _ => Or.inl rfl
  exact List.Pairwise.forall_of_forall_of_flip hrefl hfst hsnd ht hu

theorem eq_of_position_eq {all : List Char} {t u : Tile} (ht : t ∈ tilesOf all) (hu : u ∈ tilesOf all)
    (h : positionAt all t.start = positionAt all u.start) : t = u := by
  have ht' := (lies_of_mem ht).start_lt
  have hu' := (lies_of_mem hu).start_lt
  have heq := Text.positionAt_inj (Nat.le_trans (Nat.le_of_lt ht') (lies_of_mem ht).stop_le)
    (Nat.le_trans (Nat.le_of_lt hu') (lies_of_mem hu).stop_le) h
  rcases apart_of_mem ht hu with h | h | h
  · exact h
  · omega
  · omega

/-! ## Diagnostics -/

theorem position_of_diagnostic {all : List Char} {t : Tile} {d : Diagnostic} (h : (t.place all).diagnostic? = some d) :
    d.position = positionAt all t.start := by
  obtain ⟨p, -, rfl⟩ := Option.map_eq_some_iff.mp h
  rfl

theorem pairwise_diagnostics (all : List Char) :
    (Token.diagnosticsOfText all).Pairwise (·.position.Before ·.position) := by
  rw [diagnostics_eq]
  have hpos : (tilesOf all).Pairwise fun t u => (positionAt all t.start).Before (positionAt all u.start) := by
    refine (pairwise_tiles 0 _).imp_of_mem fun {t u} ht hu h => Text.before_positionAt ?_ ?_
    · exact Nat.lt_of_lt_of_le (lies_of_mem ht).start_lt h
    · exact Nat.le_trans (Nat.le_of_lt (lies_of_mem hu).start_lt) (lies_of_mem hu).stop_le
  refine hpos.filterMap _ fun t u h d hd e he => ?_
  rwa [position_of_diagnostic hd, position_of_diagnostic he]

/-- At the position of a tile there is the tile's own problem, if it has one, and no other. -/
theorem mem_diagnostics_iff {all : List Char} {t : Tile} (ht : t ∈ tilesOf all) {d : Diagnostic} :
    (d ∈ Token.diagnosticsOfText all ∧ d.position = positionAt all t.start) ↔ (t.place all).diagnostic? = some d := by
  rw [diagnostics_eq, List.mem_filterMap]
  constructor
  · rintro ⟨⟨u, hu, hd⟩, hpos⟩
    rwa [eq_of_position_eq ht hu (by rw [← hpos, position_of_diagnostic hd])]
  · intro hd
    exact ⟨⟨t, ht, hd⟩, position_of_diagnostic hd⟩

theorem filter_position {ds : List Diagnostic} (h : ds.Pairwise (·.position.Before ·.position)) {d : Diagnostic}
    (hd : d ∈ ds) : ds.filter (·.position = d.position) = [d] := by
  induction h with
  | nil => cases hd
  | @cons e ds he _ ih =>
    rcases List.mem_cons.mp hd with rfl | hd
    · have hnone : ds.filter (·.position = d.position) = [] := by
        refine List.filter_eq_nil_iff.mpr fun e hmem heq => ?_
        have hbefore := he e hmem
        rw [of_decide_eq_true heq] at hbefore
        exact Text.Position.before_irrefl _ hbefore
      simp [hnone]
    · have hne : e.position ≠ d.position := fun heq => Text.Position.before_irrefl _ (heq ▸ he d hd)
      simp [hne, ih hd]

/-! ## Tokens -/

/-- The extents of the tiles that give tokens. -/
def tokenExtents (all : List Char) : List Extent :=
  ((tilesOf all).filter fun t => (t.place all).token?.isSome).map Tile.extent

theorem forall₂_filterMap {α β γ : Type} {R : β → γ → Prop} {f : α → Option β} {g : α → γ} {xs : List α}
    (h : ∀ x ∈ xs, ∀ y, f x = some y → R y (g x)) :
    List.Forall₂ R (xs.filterMap f) ((xs.filter fun x => (f x).isSome).map g) := by
  induction xs with
  | nil => exact .nil
  | cons x xs ih =>
    obtain ⟨hx, hxs⟩ := List.forall_mem_cons.mp h
    cases hfx : f x with
    | none => simpa [hfx] using ih hxs
    | some y => simpa [hfx] using List.Forall₂.cons (hx y hfx) (ih hxs)

theorem position_of_token {all : List Char} {t : Tile} {k : Token} (h : (t.place all).token? = some k) :
    k.position = positionAt all t.start := by
  unfold PlacedLexeme.token? at h
  split at h
  all_goals first | cases h; rfl | cases h

/-- The text of a lexeme spells its token. -/
theorem spelledBy_of_stands {l : Lexeme} {rest : List Char} {p : Text.Position} {ds : List Diagnostic} {k : Token}
    (hs : l.Stands rest) (hds : ⟨p, .unclosedString⟩ ∈ ds ↔ l.kind = .string false)
    (hk : (PlacedLexeme.mk l p).token? = some k) : k.SpelledBy ds l.text := by
  cases hs with
  | blank => cases hk
  | hashComment => cases hk
  | slashComment => cases hk
  | closedComment => cases hk
  | openComment => cases hk
  | @closedString body value _ h =>
    obtain rfl := Option.some.inj hk
    refine ⟨true, body, by simp, h.no_lineFeed, ?_, by simp [hds]⟩
    simpa [Lexeme.body, h.unescape_eq] using h
  | @openString body value _ h =>
    obtain rfl := Option.some.inj hk
    refine ⟨false, body, by simp, h.no_lineFeed, ?_, by simp [hds]⟩
    simpa [Lexeme.body, h.unescape_eq] using h
  | number => obtain rfl := Option.some.inj hk; simp [Token.SpelledBy]
  | word => obtain rfl := Option.some.inj hk; simp [Token.SpelledBy]
  | mark => obtain rfl := Option.some.inj hk; simp [Token.SpelledBy]
  | stray => cases hk

/-- A string is cut off iff its position has a problem that says so. -/
theorem unclosedString_mem_iff {all : List Char} {t : Tile} (ht : t ∈ tilesOf all) :
    ⟨positionAt all t.start, .unclosedString⟩ ∈ Token.diagnosticsOfText all ↔ t.lexeme.kind = .string false := by
  have hmem := mem_diagnostics_iff ht (d := ⟨positionAt all t.start, .unclosedString⟩)
  rw [eq_self, and_true] at hmem
  rw [hmem]
  obtain ⟨start, kind, text⟩ := t
  simp only [Tile.place, PlacedLexeme.diagnostic?, PlacedLexeme.problem?]
  split <;> simp_all

theorem occupies_of_mem {all : List Char} {t : Tile} (ht : t ∈ tilesOf all) {k : Token}
    (hk : (t.place all).token? = some k) : k.Occupies all (Token.diagnosticsOfText all) t.extent := by
  have hl := lies_of_mem ht
  refine ⟨hl.start_lt, hl.stop_le, position_of_token hk, ?_⟩
  rw [hl.text_eq]
  exact spelledBy_of_stands hl.stands (position_of_token hk ▸ unclosedString_mem_iff ht) hk

/-- Whether a tile is a comment. -/
def Tile.isComment (t : Tile) : Bool :=
  t.lexeme.kind matches .lineComment | .blockComment _

/-- The extents of comments. -/
def commentExtents (all : List Char) : List Extent :=
  ((tilesOf all).filter Tile.isComment).map Tile.extent

theorem isComment_of_mem {all : List Char} {t : Tile} (ht : t ∈ tilesOf all) (hk : t.isComment = true) :
    t.extent.IsComment all := by
  have hl := lies_of_mem ht
  have hs := hl.stands
  have htext := hl.text_eq
  obtain ⟨start, lexeme⟩ := t
  generalize hr : all.drop _ = rest at hs
  cases hs with
  | blank => cases hk
  | hashComment hfree hline =>
    have hopening : ['#'] ∈ [['#'], ['/', '/']] := by simp
    exact .line hopening htext hfree (hr ▸ hline)
  | slashComment hfree hline =>
    have hopening : ['/', '/'] ∈ [['#'], ['/', '/']] := by simp
    exact .line hopening htext hfree (hr ▸ hline)
  | closedComment h => exact .closed htext h
  | openComment h => exact .open htext h (Nat.le_antisymm hl.stop_le (List.drop_eq_nil_iff.mp hr))
  | closedString => cases hk
  | openString => cases hk
  | number => cases hk
  | word => cases hk
  | mark => cases hk
  | stray => cases hk

/-- What becomes of a character whose tile gives no token. -/
theorem outside_of_mem {all : List Char} {t : Tile} (ht : t ∈ tilesOf all) {i : Nat} (hi : t.extent.Has i)
    (hlt : i < all.length) (hk : (t.place all).token? = none) :
    Text.isBlank all[i] = true ∨ (∃ c ∈ commentExtents all, c.Has i) ∨ IsStray all[i] ∧
      (Token.diagnosticsOfText all).filter (·.position = positionAt all i) =
        [⟨positionAt all i, .strayCharacter all[i]⟩] := by
  have hl := lies_of_mem ht
  have hs := hl.stands
  have hchar := hl.getElem_mem hi hlt
  have hcomment : t.isComment = true → ∃ c ∈ commentExtents all, c.Has i := by
    intro hc
    exact ⟨t.extent, List.mem_map_of_mem (List.mem_filter.mpr ⟨ht, hc⟩), hi⟩
  have hstray := fun d => (mem_diagnostics_iff ht (d := d)).mpr
  obtain ⟨start, lexeme⟩ := t
  generalize all.drop _ = rest at hs
  cases hs with
  | blank hb =>
    rw [List.mem_singleton.mp hchar]
    exact .inl hb
  | hashComment => exact .inr (.inl (hcomment rfl))
  | slashComment => exact .inr (.inl (hcomment rfl))
  | closedComment => exact .inr (.inl (hcomment rfl))
  | openComment => exact .inr (.inl (hcomment rfl))
  | closedString => cases hk
  | openString => cases hk
  | number => cases hk
  | word => cases hk
  | mark => cases hk
  | @stray c _ hb hw hm h1 h2 =>
    obtain rfl : start = i := by
      simp only [Extent.Has, Tile.extent, Tile.stop, List.length_singleton] at hi
      omega
    rw [List.mem_singleton.mp hchar]
    obtain ⟨hmem, hpos⟩ := hstray ⟨positionAt all start, .strayCharacter c⟩ rfl
    exact .inr (.inr ⟨⟨hb, hw, hm, h1, h2⟩, filter_position (pairwise_diagnostics all) hmem⟩)

theorem token?_eq_none_of_isComment {all : List Char} {t : Tile} (h : t.isComment = true) :
    (t.place all).token? = none := by
  obtain ⟨start, kind, text⟩ := t
  cases kind <;> first | rfl | cases h

/-- **Every text is accounted for by its tokens and diagnostics.** -/
theorem exists_tokenization (all : List Char) : ∃ extents comments,
    Tokenization all (Token.ofText all) (Token.diagnosticsOfText all) extents comments := by
  refine ⟨tokenExtents all, commentExtents all, ?_, ?_, ?_, ?_, ?_, pairwise_diagnostics all⟩
  · rw [tokens_eq]
    exact forall₂_filterMap fun t ht k hk => occupies_of_mem ht hk
  · exact List.pairwise_map.mpr ((pairwise_tiles 0 _).filter _)
  · intro s hs
    obtain ⟨t, ht, rfl⟩ := List.mem_map.mp hs
    exact isComment_of_mem (List.mem_of_mem_filter ht) (List.of_mem_filter ht)
  · intro c hc s hs
    obtain ⟨t, ht, rfl⟩ := List.mem_map.mp hc
    obtain ⟨u, hu, rfl⟩ := List.mem_map.mp hs
    rcases apart_of_mem (List.mem_of_mem_filter ht) (List.mem_of_mem_filter hu) with rfl | h
    · have hnone : (t.place all).token? = none := token?_eq_none_of_isComment (List.of_mem_filter ht)
      simp [hnone] at hu
    · exact h
  · intro i hi hno
    have hlt : i < 0 + ((Lexeme.lexemes all).flatMap (·.text)).length := by
      rwa [Lexeme.flatMap_text_lexemes, Nat.zero_add]
    obtain ⟨t, ht, hti⟩ := exists_tile (Nat.zero_le i) hlt
    refine outside_of_mem ht hti hi ?_
    cases hk : (t.place all).token? with
    | none => rfl
    | some k =>
      have hextent : t.extent ∈ tokenExtents all :=
        List.mem_map_of_mem (List.mem_filter.mpr ⟨ht, by simp [hk]⟩)
      exact absurd hti (hno _ hextent)

end Conformance
