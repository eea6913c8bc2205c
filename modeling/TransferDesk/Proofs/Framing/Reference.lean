import TransferDesk.Frame
/-!
# The frames of a byte string

What a whole byte string is cut into, with no regard to how it arrives. It is cut behind each line
feed, so that the pieces put together are the bytes again (`flatten_linePieces`), and each piece is
one frame, by its own length alone (`pieceFrame`).
-/

namespace TransferDesk

/-- The pieces that end with a line feed each, and the bytes behind the last line feed, if any. -/
def linePieces : List UInt8 → List (List UInt8)
  | [] => []
  | b :: bs =>
    if b = lineFeed then [b] :: linePieces bs
    else
      match linePieces bs with
      | [] => [[b]]
      | piece :: pieces => (b :: piece) :: pieces

/-- A piece without its line feed. -/
def pieceContent (piece : List UInt8) : List UInt8 :=
  if piece.getLast? = some lineFeed then piece.dropLast else piece

/-- The frame of a piece. -/
def pieceFrame (size : Nat) (piece : List UInt8) : Frame :=
  if size < contentLength (pieceContent piece) then .oversized else .line (decodeLine piece)

/-- The frames of a byte string for lines of at most `size` bytes. -/
def referenceFrames (size : Nat) (bytes : List UInt8) : List Frame :=
  (linePieces bytes).map (pieceFrame size)

/-- No byte is lost and none comes twice. -/
theorem flatten_linePieces (bytes : List UInt8) : (linePieces bytes).flatten = bytes := by
  induction bytes with
  | nil => rfl
  | cons b bs ih =>
    rw [linePieces]
    split
    · rw [List.flatten_cons, ih]
      rfl
    · split
      · rename_i hnil
        rw [hnil, List.flatten_nil] at ih
        rw [← ih]
        rfl
      · rename_i piece pieces hcons
        rw [hcons, List.flatten_cons] at ih
        rw [List.flatten_cons, ← ih]
        rfl

theorem linePieces_line {line : List UInt8} (h : lineFeed ∉ line) (rest : List UInt8) :
    linePieces (line ++ lineFeed :: rest) = (line ++ [lineFeed]) :: linePieces rest := by
  induction line with
  | nil =>
    rw [List.nil_append, linePieces, if_pos rfl]
    rfl
  | cons b bs ih =>
    rw [List.mem_cons, not_or] at h
    rw [List.cons_append, linePieces, if_neg (Ne.symm h.1), ih h.2]
    rfl

theorem linePieces_of_not_mem {bytes : List UInt8} (h : lineFeed ∉ bytes) (hne : bytes ≠ []) :
    linePieces bytes = [bytes] := by
  induction bytes with
  | nil => exact absurd rfl hne
  | cons b bs ih =>
    rw [List.mem_cons, not_or] at h
    rw [linePieces, if_neg (Ne.symm h.1)]
    cases bs with
    | nil => rfl
    | cons c cs => rw [ih h.2 (List.cons_ne_nil c cs)]

theorem pieceContent_line (content : List UInt8) :
    pieceContent (content ++ [lineFeed]) = content := by
  unfold pieceContent
  rw [if_pos List.getLast?_concat, List.dropLast_concat]

theorem pieceContent_of_not_mem {piece : List UInt8} (h : lineFeed ∉ piece) :
    pieceContent piece = piece := by
  unfold pieceContent
  rw [if_neg]
  intro hlast
  exact h (List.mem_of_getLast? hlast)

/-- The frame of a line depends on its bytes as the frame of a piece does. -/
theorem pieceFrame_line (size : Nat) (content : List UInt8) :
    pieceFrame size (content ++ [lineFeed]) = lineFrame size content := by
  unfold pieceFrame
  rw [pieceContent_line]
  rfl

@[simp] theorem referenceFrames_nil (size : Nat) : referenceFrames size [] = [] := rfl

theorem referenceFrames_line {line : List UInt8} (h : lineFeed ∉ line) (size : Nat)
    (rest : List UInt8) :
    referenceFrames size (line ++ lineFeed :: rest) =
      lineFrame size line :: referenceFrames size rest := by
  unfold referenceFrames
  rw [linePieces_line h, List.map_cons, pieceFrame_line]

theorem referenceFrames_of_not_mem {bytes : List UInt8} (h : lineFeed ∉ bytes) (hne : bytes ≠ [])
    (size : Nat) :
    referenceFrames size bytes =
      [if size < contentLength bytes then .oversized else .line (decodeLine bytes)] := by
  unfold referenceFrames pieceFrame
  rw [linePieces_of_not_mem h hne, List.map_singleton, pieceContent_of_not_mem h]

/-! ## The rest of a line -/

/-- The bytes behind the first line feed. -/
def afterLine (bytes : List UInt8) : List UInt8 :=
  match splitLine? bytes with
  | none => []
  | some (_, rest) => rest

theorem afterLine_line {line : List UInt8} (h : lineFeed ∉ line) (rest : List UInt8) :
    afterLine (line ++ lineFeed :: rest) = rest := by
  unfold afterLine
  rw [splitLine?_eq_some_iff.2 ⟨rfl, h⟩]

theorem afterLine_of_not_mem {bytes : List UInt8} (h : lineFeed ∉ bytes) :
    afterLine bytes = [] := by
  unfold afterLine
  rw [splitLine?_eq_none_iff.2 h]

/-- Bytes with a line feed are a line and what is behind it. -/
theorem exists_line {bytes : List UInt8} (h : lineFeed ∈ bytes) :
    ∃ line rest, bytes = line ++ lineFeed :: rest ∧ lineFeed ∉ line := by
  cases hs : splitLine? bytes with
  | none => exact absurd h (splitLine?_eq_none_iff.1 hs)
  | some found =>
    obtain ⟨line, rest⟩ := found
    exact ⟨line, rest, splitLine?_eq_some_iff.1 hs⟩

/-- The rest of a line does not hold the bytes that came before it. -/
theorem afterLine_append {bytes : List UInt8} (h : lineFeed ∉ bytes) (rest : List UInt8) :
    afterLine (bytes ++ rest) = afterLine rest := by
  by_cases hr : lineFeed ∈ rest
  · obtain ⟨line, behind, rfl, hline⟩ := exists_line hr
    have hall : lineFeed ∉ bytes ++ line := by
      rw [List.mem_append]
      exact not_or.2 ⟨h, hline⟩
    rw [← List.append_assoc, afterLine_line hall, afterLine_line hline]
  · have hall : lineFeed ∉ bytes ++ rest := by
      rw [List.mem_append]
      exact not_or.2 ⟨h, hr⟩
    rw [afterLine_of_not_mem hall, afterLine_of_not_mem hr]

/-! ## Lines that are too long -/

theorem contentLength_append_le {bytes : List UInt8} (more : List UInt8) :
    contentLength bytes ≤ contentLength (bytes ++ more) := by
  unfold contentLength
  cases more with
  | nil => exact Nat.le_of_eq (by rw [List.append_nil])
  | cons b bs =>
    rw [List.length_append, List.length_cons]
    split <;> split <;> omega

/-- A line that is too long already is one oversized frame, whatever is still to come of it. -/
theorem referenceFrames_overflow {bytes : List UInt8} (h : lineFeed ∉ bytes) {size : Nat}
    (hlong : size < contentLength bytes) (rest : List UInt8) :
    referenceFrames size (bytes ++ rest) = .oversized :: referenceFrames size (afterLine rest) := by
  have hne : bytes ≠ [] := by
    rintro rfl
    exact absurd hlong (Nat.not_lt_zero size)
  by_cases hr : lineFeed ∈ rest
  · obtain ⟨line, behind, rfl, hline⟩ := exists_line hr
    have hall : lineFeed ∉ bytes ++ line := by
      rw [List.mem_append]
      exact not_or.2 ⟨h, hline⟩
    have hover : size < contentLength (bytes ++ line) :=
      Nat.lt_of_lt_of_le hlong (contentLength_append_le line)
    rw [← List.append_assoc, referenceFrames_line hall, afterLine_line hline]
    unfold lineFrame
    rw [if_pos hover]
  · have hall : lineFeed ∉ bytes ++ rest := by
      rw [List.mem_append]
      exact not_or.2 ⟨h, hr⟩
    have hover : size < contentLength (bytes ++ rest) :=
      Nat.lt_of_lt_of_le hlong (contentLength_append_le rest)
    rw [referenceFrames_of_not_mem hall (List.append_ne_nil_of_left_ne_nil hne rest),
      if_pos hover, afterLine_of_not_mem hr, referenceFrames_nil]

end TransferDesk
