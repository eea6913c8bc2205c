import Mathlib.Data.List.Forall2
import TransferDesk.Proofs.Decimal.Shown
import TransferDesk.Response
/-!
# Responses can be read

A response is one line, whatever is in the text of an error (`unbroken_line`), so the lines of many
responses can be told from each other (`splitOn_wire`). A line tells what the response is. `ofLine?`
reads it as a client would, and reads every response as one that is `Alike`: of the same kind, with
the same account and the same amount, and with the same text as far as a line can show it
(`read_line`).
-/

namespace TransferDesk

/-- Characters without a line break. -/
def Unbroken (cs : List Char) : Prop :=
  ∀ c ∈ cs, c ≠ '\n' ∧ c ≠ '\r'

namespace Response

/-! ## One line -/

theorem onOneLine_ne (c : Char) : onOneLine c ≠ '\n' ∧ onOneLine c ≠ '\r' := by
  unfold onOneLine
  split
  · decide
  · rename_i hbreak
    rw [not_or] at hbreak
    exact ⟨hbreak.2, hbreak.1⟩

/-- What a line shows, it shows as it is. -/
theorem onOneLine_onOneLine (c : Char) : onOneLine (onOneLine c) = onOneLine c := by
  obtain ⟨hfeed, hreturn⟩ := onOneLine_ne c
  exact if_neg (not_or.2 ⟨hreturn, hfeed⟩)

theorem map_onOneLine_map (text : List Char) :
    (text.map onOneLine).map onOneLine = text.map onOneLine := by
  rw [List.map_map]
  refine List.map_congr_left ?_
  intro c _
  exact onOneLine_onOneLine c

/-- The text of a response is on one line. -/
theorem unbroken_line (r : Response) : Unbroken r.line := by
  intro c hc
  cases r with
  | pong =>
    change c ∈ ['P', 'O', 'N', 'G'] at hc
    constructor <;> rintro rfl <;> exact absurd hc (by decide)
  | ok =>
    change c ∈ ['O', 'K'] at hc
    constructor <;> rintro rfl <;> exact absurd hc (by decide)
  | error message =>
    rcases List.mem_append.1 hc with hc | hc
    · constructor <;> rintro rfl <;> exact absurd hc (by decide)
    · obtain ⟨d, -, rfl⟩ := List.mem_map.1 hc
      exact onOneLine_ne d
  | balance id amount =>
    rcases List.mem_append.1 hc with hc | hc
    · rcases List.mem_append.1 hc with hc | hc
      · constructor <;> rintro rfl <;> exact absurd hc (by decide)
      · -- the number of the account
        have hmem := (Text.numeral_integerChars id.toInt).mem hc
        constructor <;> rintro rfl <;> exact absurd hmem (by decide)
    · rcases List.mem_cons.1 hc with rfl | hc
      · decide
      · have hmem := Decimal.mem_toFixedChars hc
        constructor <;> rintro rfl <;> exact absurd hmem (by decide)

/-- To split the lines of responses gives the lines of each, and nothing behind the last one. -/
theorem splitOn_wire (responses : List Response) :
    (responses.flatMap wire).splitOn '\n' = responses.map line ++ [[]] := by
  induction responses with
  | nil => rfl
  | cons r responses ih =>
    have hfeed : '\n' ∉ r.line := fun h => (r.unbroken_line _ h).1 rfl
    rw [List.flatMap_cons, wire, List.append_assoc, List.singleton_append,
      List.splitOn_append_cons_self_of_not_mem hfeed, ih]
    rfl

/-! ## Reading a line -/

/-- Responses that say the same. -/
inductive Alike : Response → Response → Prop
  | pong : Alike pong pong
  | ok : Alike ok ok
  | balance {id : AccountId} {a b : Decimal} (h : a.value = b.value) :
    Alike (balance id a) (balance id b)
  | error {s t : String} (h : s.toList.map onOneLine = t.toList.map onOneLine) :
    Alike (error s) (error t)

theorem Alike.of_common {r s t : Response} (h : r.Alike t) (h' : s.Alike t) : r.Alike s := by
  cases h with
  | pong =>
    cases h'
    exact .pong
  | ok =>
    cases h'
    exact .ok
  | balance hvalue =>
    cases h' with
    | balance hvalue' => exact .balance (hvalue.trans hvalue'.symm)
  | error htext =>
    cases h' with
    | error htext' => exact .error (htext.trans htext'.symm)

/-- A response whose line shows all of its amount, if it has one. -/
def ShownInFull : Response → Prop
  | balance _ amount => amount.ShownInFull
  | _ => True

/-- The characters in front of the first space. -/
def firstWord (text : List Char) : List Char :=
  text.takeWhile (· ≠ ' ')

/-- The characters behind the first space. -/
def afterWord (text : List Char) : List Char :=
  (text.dropWhile (· ≠ ' ')).tail

/-- Reads a line. The first word says which kind of response it is. -/
def ofLine? (text : List Char) : Option Response :=
  if text = "PONG".toList then some pong
  else if text = "OK".toList then some ok
  else if firstWord text = "BALANCE".toList then
    match Text.readInt32 10 (firstWord (afterWord text)),
      Decimal.ofChars? (afterWord (afterWord text)) with
    | .ok id, some amount => some (balance id amount)
    | _, _ => none
  else if firstWord text = "ERROR".toList then some (error (String.ofList (afterWord text)))
  else none

/-- Reads the lines of a text, each of which has its line feed. -/
def ofLines? (text : List Char) : Option (List Response) :=
  (text.splitOn '\n').dropLast.mapM ofLine?

theorem words_append {word : List Char} (h : ' ' ∉ word) (rest : List Char) :
    firstWord (word ++ ' ' :: rest) = word ∧ afterWord (word ++ ' ' :: rest) = rest := by
  have hsolid : ∀ c ∈ word, decide (c ≠ ' ') = true := by
    intro c hc
    refine decide_eq_true ?_
    rintro rfl
    exact h hc
  have hstop : decide (' ' ≠ ' ') = false := rfl
  obtain ⟨htake, hdrop⟩ := Text.cut_at_stop (p := (· ≠ ' ')) hsolid hstop rest
  unfold firstWord afterWord
  rw [htake, hdrop]
  exact ⟨rfl, rfl⟩

/-- The line of a response is read as one that says the same. -/
theorem read_line {r : Response} (h : r.ShownInFull) :
    ∃ read, ofLine? r.line = some read ∧ r.Alike read := by
  cases r with
  | pong => exact ⟨_, rfl, .pong⟩
  | ok => exact ⟨_, rfl, .ok⟩
  | error message =>
    have hsolid : ' ' ∉ "ERROR".toList := by decide
    obtain ⟨hword, hafter⟩ := words_append hsolid (message.toList.map onOneLine)
    refine ⟨error (String.ofList (message.toList.map onOneLine)), ?_, ?_⟩
    · change ofLine? ("ERROR".toList ++ ' ' :: message.toList.map onOneLine) = _
      unfold ofLine?
      rw [hword, hafter, if_neg (by simp), if_neg (by simp), if_neg (by decide), if_pos rfl]
    · -- line breaks are lost, but no more of them when the text is shown again
      refine .error ?_
      rw [String.toList_ofList, map_onOneLine_map]
  | balance id amount =>
    obtain ⟨read, hread, hvalue⟩ := Decimal.exists_read_toFixedChars (d := amount) h.money
    have hnumber := Text.numeral_integerChars id.toInt
    have hspace : ' ' ∉ Text.integerChars id.toInt := by
      intro hmem
      exact absurd (hnumber.mem hmem) (by decide)
    have hsolid : ' ' ∉ "BALANCE".toList := by decide
    obtain ⟨hword, hafter⟩ := words_append hsolid
      (Text.integerChars id.toInt ++ ' ' :: amount.toFixedChars moneyPlaces)
    obtain ⟨hid, hamount⟩ := words_append hspace (amount.toFixedChars moneyPlaces)
    refine ⟨balance id read, ?_, .balance hvalue.symm⟩
    -- the account number has no space in it, so the rest of the line is the amount
    have hline : (balance id amount).line = "BALANCE".toList ++
        ' ' :: (Text.integerChars id.toInt ++ ' ' :: amount.toFixedChars moneyPlaces) :=
      List.append_assoc "BALANCE ".toList _ _
    rw [hline]
    unfold ofLine?
    rw [hword, hafter, hid, hamount, (Text.readInt32_eq_ok_iff _ id).2 hnumber, hread,
      if_neg (by simp), if_neg (by simp), if_pos rfl]

/-- Responses have the same line if and only if they say the same. -/
theorem line_eq_line_iff {r s : Response} (hr : r.ShownInFull) (hs : s.ShownInFull) :
    r.line = s.line ↔ r.Alike s := by
  constructor
  · intro h
    -- either line is read as what its response says, and the lines are the same
    obtain ⟨read, hread, hlike⟩ := read_line hr
    obtain ⟨read', hread', hlike'⟩ := read_line hs
    rw [← h, hread] at hread'
    obtain rfl := Option.some.inj hread'
    exact hlike.of_common hlike'
  · intro h
    cases h with
    | pong => rfl
    | ok => rfl
    | balance hvalue =>
      have hshown := (Decimal.ShownInFull.toFixedChars_eq_iff hr hs).2 hvalue
      exact congrArg (fun shown => "BALANCE ".toList ++ _ ++ ' ' :: shown) hshown
    | error htext => exact congrArg (fun shown => "ERROR ".toList ++ shown) htext

/-- The lines of responses are read as responses that say the same, one by one. -/
theorem read_wire {responses : List Response} (h : ∀ r ∈ responses, r.ShownInFull) :
    ∃ read, ofLines? (responses.flatMap wire) = some read ∧ List.Forall₂ Alike responses read := by
  unfold ofLines?
  rw [splitOn_wire, List.dropLast_concat]
  induction responses with
  | nil => exact ⟨[], rfl, .nil⟩
  | cons r responses ih =>
    obtain ⟨first, hfirst, hlike⟩ := read_line (h r List.mem_cons_self)
    obtain ⟨rest, hrest, hlikes⟩ := ih fun s hs => h s (List.mem_cons_of_mem r hs)
    refine ⟨first :: rest, ?_, .cons hlike hlikes⟩
    rw [List.map_cons, List.mapM_cons, hfirst, hrest]
    rfl

/-- Every response is one line that can be read in one way only.

* What goes over the wire for a response has one line feed, at its end, and no carriage return.
* The same goes over the wire for two responses that are shown in full if and only if they say the
same.
* If what goes over the wire for many responses is split at its line feeds, the lines of the
responses come out, and nothing behind them. If the responses are shown in full, to read the lines
gives responses that say the same. -/
theorem uniquely_readable :
    (∀ r : Response, r.wire.count '\n' = 1 ∧ r.wire.getLast? = some '\n' ∧ '\r' ∉ r.wire) ∧
    (∀ r s : Response, r.ShownInFull → s.ShownInFull → (r.wire = s.wire ↔ r.Alike s)) ∧
    ∀ responses : List Response,
      (responses.flatMap wire).splitOn '\n' = responses.map line ++ [[]] ∧
      ((∀ r ∈ responses, r.ShownInFull) →
        ∃ read, ofLines? (responses.flatMap wire) = some read ∧
          List.Forall₂ Alike responses read) := by
  refine ⟨?_, ?_, ?_⟩
  · intro r
    have hfeed : '\n' ∉ r.line := fun h => (r.unbroken_line _ h).1 rfl
    refine ⟨?_, List.getLast?_concat, ?_⟩
    · rw [wire, List.count_append, List.count_eq_zero.2 hfeed]
      rfl
    · intro h
      rcases List.mem_append.1 h with h | h
      · exact (r.unbroken_line _ h).2 rfl
      · exact absurd h (by decide)
  · intro r s hr hs
    rw [wire, wire, List.append_cancel_right_eq]
    exact line_eq_line_iff hr hs
  · intro responses
    exact ⟨splitOn_wire responses, read_wire⟩

/-- A debt of a half, at one place. -/
def debtOfHalf : Response :=
  balance (-7) (Decimal.ofParts (-5) 1)

/-- The same debt at three places. -/
def debtOfHalfAtThree : Response :=
  balance (-7) (Decimal.ofParts (-500) 3)

/-- The same line goes over the wire for either. Between other responses, one of which has line
breaks in its text, the debt is read as what it is. -/
theorem debtOfHalf_read :
    debtOfHalf.ShownInFull ∧ debtOfHalfAtThree.ShownInFull ∧
    debtOfHalf.wire = debtOfHalfAtThree.wire ∧
    ∃ read, ofLines? ([error "no\r\nluck", debtOfHalfAtThree, pong].flatMap wire) = some read ∧
      List.Forall₂ Alike [error "no\r\nluck", debtOfHalfAtThree, pong] read := by
  obtain ⟨-, hsame, hsplit⟩ := uniquely_readable
  have hone : debtOfHalf.ShownInFull := ⟨by decide, by decide⟩
  have hthree : debtOfHalfAtThree.ShownInFull := ⟨by decide, by decide⟩
  have hvalue : (Decimal.ofParts (-5) 1).value = (Decimal.ofParts (-500) 3).value := by
    rw [Decimal.value_ofParts (by norm_num) (by norm_num),
      Decimal.value_ofParts (by norm_num) (by norm_num)]
    norm_num
  refine ⟨hone, hthree, (hsame _ _ hone hthree).2 (.balance hvalue), (hsplit _).2 ?_⟩
  intro r hr
  simp only [List.mem_cons, List.not_mem_nil, or_false] at hr
  rcases hr with rfl | rfl | rfl
  · trivial
  · exact hthree
  · trivial

end Response

end TransferDesk
