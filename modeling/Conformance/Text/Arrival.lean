import Conformance.Text.Utf8

/-!
# The arrival of a text

The bytes of a file are fetched bit by bit, and its characters are known as far as the bytes go. So bytes that are not
UTF-8 show only when they are fetched, and the characters known by then can be used.
-/

namespace Conformance.Text

/-- A character, and after how many bytes of its file it is known. -/
structure Arrival where
  char : Char
  bytes : Nat
deriving Repr

/-- The characters of pieces behind an offset, up to the first invalid piece, with line ends unified. A carriage return
is known as a line end together with what follows, or at the end. -/
def arrivals (offset : Nat) : List (Option Char × Nat) → List Arrival
  | (some '\r', n) :: (some '\n', m) :: ps => ⟨'\n', offset + n + m⟩ :: arrivals (offset + n + m) ps
  | (some '\r', n) :: (some c, m) :: ps => ⟨'\n', offset + n + m⟩ :: arrivals (offset + n) ((some c, m) :: ps)
  | [(some '\r', n)] => [⟨'\n', offset + n + 1⟩]
  | (some '\r', _) :: (none, _) :: _ => []
  | (some c, n) :: ps => ⟨c, offset + n⟩ :: arrivals (offset + n) ps
  | (none, _) :: _ => []
  | [] => []

/-- After how many bytes it shows that they start with an invalid piece. The first half of a surrogate pair counts as
unfinished before its third byte. -/
def shownAfter : List UInt8 → Nat
  | [] => 0
  | b :: bs =>
    match Utf8.continuation? b with
    | none => 1
    | some ranges =>
      if b = 0xED && bs.head?.any fun t => 0xA0 ≤ t && t ≤ 0xBF then 3 else Utf8.fitting ranges bs + 2

/-- After how many bytes it shows that they are not UTF-8; one more than there are if only the end shows it. -/
def invalidAfter? (bytes : List UInt8) : Option Nat :=
  (Utf8.firstInvalid? bytes).map fun i => i + shownAfter (bytes.drop i)

/-- At least so many bytes are fetched at once. -/
def leastFetch : Nat := 8192

/-- Characters are handed over in portions of this length. -/
def portion : Nat := 4096

/-- How many bytes are fetched next: as many as the characters that the current portion lacks take by the measure of the
last fetch. -/
def fetchSize (lastBytes lastChars known : Nat) : Nat :=
  max leastFetch (lastBytes * (portion - known % portion) / lastChars)

/-- Where the next fetch ends, of a file of `total` bytes. At the end of the file it brings nothing but the end. -/
def fetchEnd (total fetched lastBytes lastChars known : Nat) : Nat :=
  if fetched < total then min total (fetched + fetchSize lastBytes lastChars known) else fetched + 1

theorem lt_fetchEnd (total fetched lastBytes lastChars known : Nat) :
    fetched < fetchEnd total fetched lastBytes lastChars known := by
  have : 0 < fetchSize lastBytes lastChars known := Nat.lt_of_lt_of_le (by decide) (Nat.le_max_left leastFetch _)
  unfold fetchEnd
  split <;> omega

/-- How many characters are known before the fetch that reaches the byte number `limit`; `fetched` bytes and `known`
characters are there, and the others are coming. -/
def knownBefore (total limit fetched lastBytes lastChars known : Nat) (coming : List Arrival) : Nat :=
  let next := fetchEnd total fetched lastBytes lastChars known
  if limit ≤ next then known
  else
    let arrived := (coming.takeWhile (·.bytes ≤ next)).length
    knownBefore total limit next (next - fetched) arrived (known + arrived) (coming.drop arrived)
termination_by limit - fetched
decreasing_by
  have := lt_fetchEnd total fetched lastBytes lastChars known
  omega

/-- How many characters are handed over before the character number `n` is. The first two portions come at once. -/
def handedOver (n : Nat) : Nat := if n < 2 * portion then 0 else n - n % portion

end Conformance.Text
