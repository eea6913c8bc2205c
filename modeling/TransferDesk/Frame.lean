import TransferDesk.Text.Utf8
/-!
# Frames

A frame is what is answered as a whole: the text of a line, without the line breaks at its end, or a
line that is too long. A line ends with a line feed, in front of which a carriage return may stand.

`splitLine?_eq_some_iff` and `splitLine?_eq_none_iff` say where bytes are split.
-/

namespace TransferDesk

/-- How a stream is cut into frames. -/
inductive Framing where
  | byRead
  | byLine
deriving DecidableEq, Repr

/-- A piece of input that is answered as a whole. -/
inductive Frame where
  | line (text : List Char)
  | oversized
deriving DecidableEq, Repr

/-- The byte that ends a line. -/
def lineFeed : UInt8 := 10

/-- The byte that may stand before a line feed and is then part of the line ending. -/
def carriageReturn : UInt8 := 13

/-- A text without the line breaks at its end. -/
def stripLineBreaks (text : List Char) : List Char :=
  (text.reverse.dropWhile fun c => c = '\n' ∨ c = '\r').reverse

/-- The text of the bytes of a line, without the line breaks at its end. -/
def decodeLine (bytes : List UInt8) : List Char :=
  stripLineBreaks (Text.Utf8.decodeLossy bytes)

/-- The number of bytes, not counting a carriage return in last place. -/
def contentLength (bytes : List UInt8) : Nat :=
  if bytes.getLast? = some carriageReturn then bytes.length - 1 else bytes.length

/-- The bytes before the first line feed and those after it, if there is one. -/
def splitLine? : List UInt8 → Option (List UInt8 × List UInt8)
  | [] => none
  | b :: bs =>
    if b = lineFeed then some ([], bs)
    else (splitLine? bs).map fun (line, rest) => (b :: line, rest)

theorem splitLine?_eq_none_iff {bytes : List UInt8} :
    splitLine? bytes = none ↔ lineFeed ∉ bytes := by
  induction bytes with
  | nil => simp [splitLine?]
  | cons b bs ih =>
    rw [splitLine?]
    by_cases h : b = lineFeed
    · simp [h]
    · rw [if_neg h, Option.map_eq_none_iff, ih, List.mem_cons, not_or]
      exact ⟨fun hb => ⟨fun he => h he.symm, hb⟩, And.right⟩

theorem splitLine?_eq_some_iff {bytes line rest : List UInt8} :
    splitLine? bytes = some (line, rest) ↔ bytes = line ++ lineFeed :: rest ∧ lineFeed ∉ line := by
  induction bytes generalizing line with
  | nil => simp [splitLine?]
  | cons b bs ih =>
    rw [splitLine?]
    by_cases h : b = lineFeed
    · subst h
      cases line with
      | nil => simp [eq_comm]
      | cons c cs => simp +contextual [eq_comm]
    · rw [if_neg h, Option.map_eq_some_iff]
      cases line with
      | nil => simp [h]
      | cons c cs =>
        simp only [Prod.exists, Prod.mk.injEq, List.cons.injEq, List.cons_append, List.mem_cons,
          not_or]
        constructor
        · rintro ⟨line', rest', hs, ⟨rfl, rfl⟩, rfl⟩
          exact ⟨⟨rfl, (ih.1 hs).1⟩, fun he => h he.symm, (ih.1 hs).2⟩
        · rintro ⟨⟨rfl, hb⟩, -, hc⟩
          exact ⟨cs, rest, ih.2 ⟨hb, hc⟩, ⟨rfl, rfl⟩, rfl⟩

/-- The frame of a line whose bytes, without the line feed, are given. -/
def lineFrame (size : Nat) (content : List UInt8) : Frame :=
  if size < contentLength content then .oversized
  else .line (decodeLine (content ++ [lineFeed]))

end TransferDesk
