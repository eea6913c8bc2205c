/-!
# White space and tokens

`isBlank` decides the Unicode property White_Space: 25 code points in ten ranges, the same in every
version of Unicode since 6.3. A token is a maximal run of characters that are not blank, and
`splitToken?` cuts the first one off a text.
-/

namespace TransferDesk.Text

/-- Closed ranges of the code points with the property White_Space, ascending and apart. -/
def blankRanges : List (Nat × Nat) :=
  [(0x09, 0x0D), (0x20, 0x20), (0x85, 0x85), (0xA0, 0xA0), (0x1680, 0x1680), (0x2000, 0x200A),
   (0x2028, 0x2029), (0x202F, 0x202F), (0x205F, 0x205F), (0x3000, 0x3000)]

/-- Whether a character has the property White_Space. -/
def isBlank (c : Char) : Bool :=
  blankRanges.any fun r => r.1 ≤ c.toNat && c.toNat ≤ r.2

/-- The text without the blanks at its start. -/
def trimStart (s : List Char) : List Char :=
  s.dropWhile isBlank

/-- The text without the blanks at its end. -/
def trimEnd (s : List Char) : List Char :=
  (s.reverse.dropWhile isBlank).reverse

/-- The text without the blanks at both its ends. -/
def trim (s : List Char) : List Char :=
  trimEnd (trimStart s)

/-- The first token of a text and what follows it, or `none` if the text is blank throughout.
What follows is empty or starts with a blank. -/
def splitToken? (s : List Char) : Option (List Char × List Char) :=
  match trimStart s with
  | [] => none
  | c :: cs => some ((c :: cs).takeWhile (!isBlank ·), (c :: cs).dropWhile (!isBlank ·))

end TransferDesk.Text
