/-!
# UTF-8

`decode` reads bytes as UTF-8, one byte at a time. Each character comes out as itself and each
ill-formed part as `none`, where an ill-formed part is as long as it can be while it still is the
beginning of some character. `decodeLossy` shows such a part as U+FFFD, and `validUpTo?` tells where
the first one starts.
-/

namespace TransferDesk.Text.Utf8

/-- A character of which some bytes have been read. -/
structure Pending where
  /-- How many bytes are still due. -/
  missing : Nat
  /-- The least value of the next byte. -/
  low : UInt8
  /-- The greatest value of the next byte. -/
  high : UInt8
  /-- The bits read so far. -/
  value : Nat
deriving DecidableEq, Repr

/-- What the first byte of a character amounts to. -/
inductive Opening where
  | complete (c : Char)
  | more (p : Pending)
  | illFormed
deriving DecidableEq, Repr

/-- Reads a byte in first place. The bounds of the byte after it leave out overlong forms, the
surrogates and all that lies above U+10FFFF. -/
def openWith (b : UInt8) : Opening :=
  if b ≤ 0x7F then .complete (Char.ofNat b.toNat)
  else if b < 0xC2 then .illFormed
  else if b ≤ 0xDF then .more ⟨1, 0x80, 0xBF, b.toNat - 0xC0⟩
  else if b = 0xE0 then .more ⟨2, 0xA0, 0xBF, 0⟩
  else if b = 0xED then .more ⟨2, 0x80, 0x9F, 0xD⟩
  else if b ≤ 0xEF then .more ⟨2, 0x80, 0xBF, b.toNat - 0xE0⟩
  else if b = 0xF0 then .more ⟨3, 0x90, 0xBF, 0⟩
  else if b ≤ 0xF3 then .more ⟨3, 0x80, 0xBF, b.toNat - 0xF0⟩
  else if b = 0xF4 then .more ⟨3, 0x80, 0x8F, 4⟩
  else .illFormed

/-- Reads a byte in a later place. It is `illFormed` if the byte cannot stand there. -/
def Pending.feed (p : Pending) (b : UInt8) : Opening :=
  if p.low ≤ b ∧ b ≤ p.high then
    let value := p.value * 64 + (b.toNat - 0x80)
    if p.missing ≤ 1 then .complete (Char.ofNat value)
    else .more ⟨p.missing - 1, 0x80, 0xBF, value⟩
  else .illFormed

/-- The characters of a byte string, with `none` for each ill-formed part, when the bytes of
`pending` have been read before. -/
def decodeFrom (pending : Option Pending) : List UInt8 → List (Option Char)
  | [] => if pending.isSome then [none] else []
  | b :: bs =>
    match pending.elim (openWith b) (·.feed b) with
    | .complete c => some c :: decodeFrom none bs
    | .more p => decodeFrom (some p) bs
    | .illFormed =>
      match pending with
      | none => none :: decodeFrom none bs
      | some _ =>
        -- the part ends before `b`, which then stands in first place
        match openWith b with
        | .complete c => none :: some c :: decodeFrom none bs
        | .more p => none :: decodeFrom (some p) bs
        | .illFormed => none :: none :: decodeFrom none bs

/-- The characters of a byte string, with `none` for each ill-formed part. -/
def decode (bytes : List UInt8) : List (Option Char) :=
  decodeFrom none bytes

/-- The text of a byte string, with U+FFFD for each ill-formed part. -/
def decodeLossy (bytes : List UInt8) : List Char :=
  (decode bytes).map (·.getD '\uFFFD')

/-- The number of bytes before the first ill-formed part, or `none` if there is none. -/
def validUpTo? (bytes : List UInt8) : Option Nat :=
  let cs := decode bytes
  if cs.all Option.isSome then none
  else some (((cs.takeWhile Option.isSome).filterMap id).foldl (fun n c => n + c.utf8Size) 0)

/-- The bytes of a text. -/
def encode (s : List Char) : List UInt8 :=
  s.flatMap String.utf8EncodeChar

end TransferDesk.Text.Utf8
