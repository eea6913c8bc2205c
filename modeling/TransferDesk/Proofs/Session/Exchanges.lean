import Mathlib.Data.List.Forall2
import TransferDesk.Proofs.Desk.Effects
import TransferDesk.Session
/-!
# Exchanges

An `Exchange` is a frame together with the response to it. When frames are answered one after the
other by a ledger, every entry that the journal gets belongs to an exchange that was confirmed by
`OK`, and every exchange that was confirmed has its entry (`booked_exchangeAll`): the transfer that
the frame asks for. A response is `OK` if and only if it looks like it on the wire
(`wire_eq_ok_iff`).
-/

namespace TransferDesk

/-- A frame that has been answered, with the response to it if it got one. -/
structure Exchange where
  frame : Frame
  response? : Option Response
deriving DecidableEq, Repr

/-- The exchanges when frames are answered one after the other, and the bank after them. -/
def Frame.exchangeAll {σ : Type} [Bank σ] : List Frame → σ → List Exchange × σ
  | [], bank => ([], bank)
  | frame :: frames, bank =>
    let (response?, bank) := frame.reply bank
    let (exchanges, last) := exchangeAll frames bank
    (⟨frame, response?⟩ :: exchanges, last)

namespace Exchange

/-- The responses of exchanges. -/
def responses (exchanges : List Exchange) : List Response :=
  exchanges.filterMap response?

/-- What exchanges put on the wire. -/
def wire (exchanges : List Exchange) : List UInt8 :=
  (responses exchanges).flatMap Response.bytes

/-- How many of the responses read `OK` on the wire. -/
def okLines (responses : List Response) : Nat :=
  responses.countP fun r => r.wire = "OK\n".toList

/-- The exchanges in which a transfer was confirmed. -/
def confirmed (exchanges : List Exchange) : List Exchange :=
  exchanges.filter (·.response? = some .ok)

@[simp] theorem responses_append (xs ys : List Exchange) :
    responses (xs ++ ys) = responses xs ++ responses ys :=
  List.filterMap_append

@[simp] theorem wire_append (xs ys : List Exchange) : wire (xs ++ ys) = wire xs ++ wire ys := by
  unfold wire
  rw [responses_append, List.flatMap_append]

@[simp] theorem confirmed_append (xs ys : List Exchange) :
    confirmed (xs ++ ys) = confirmed xs ++ confirmed ys :=
  List.filter_append ..

@[simp] theorem okLines_append (xs ys : List Response) :
    okLines (xs ++ ys) = okLines xs + okLines ys :=
  List.countP_append

theorem okLines_le (xs : List Response) : okLines xs ≤ xs.length :=
  List.countP_le_length

theorem responses_of_none (frame : Frame) : responses [⟨frame, none⟩] = [] := rfl

theorem responses_of_some (frame : Frame) (response : Response) :
    responses [⟨frame, some response⟩] = [response] := rfl

theorem wire_of_none (frame : Frame) : wire [⟨frame, none⟩] = [] := rfl

theorem wire_of_some (frame : Frame) (response : Response) :
    wire [⟨frame, some response⟩] = response.bytes :=
  List.append_nil _

end Exchange

namespace Frame

variable {σ : Type} [Bank σ]

theorem exchangeAll_concat (frames : List Frame) (frame : Frame) (bank : σ) :
    exchangeAll (frames ++ [frame]) bank =
      ((exchangeAll frames bank).1 ++ [⟨frame, (frame.reply (exchangeAll frames bank).2).1⟩],
        (frame.reply (exchangeAll frames bank).2).2) := by
  induction frames generalizing bank with
  | nil => rfl
  | cons first frames ih =>
    change (_ :: (exchangeAll (frames ++ [frame]) (first.reply bank).2).1,
      (exchangeAll (frames ++ [frame]) (first.reply bank).2).2) = _
    rw [ih]
    rfl

/-- Every frame makes one exchange. -/
theorem map_frame_exchangeAll (frames : List Frame) (bank : σ) :
    (exchangeAll frames bank).1.map Exchange.frame = frames := by
  induction frames generalizing bank with
  | nil => rfl
  | cons frame frames ih => exact congrArg (frame :: ·) (ih _)

/-- Only an empty line gets no response. -/
theorem reply_eq_none_iff {frame : Frame} {bank : σ} :
    (frame.reply bank).1 = none ↔ frame = .line [] := by
  unfold reply
  split <;> simp_all

theorem response_eq_none_of_mem {frames : List Frame} {bank : σ} {e : Exchange}
    (h : e ∈ (exchangeAll frames bank).1) : e.response? = none ↔ e.frame = .line [] := by
  induction frames generalizing bank with
  | nil => exact absurd h List.not_mem_nil
  | cons frame frames ih =>
    rcases List.mem_cons.1 h with rfl | h
    · exact reply_eq_none_iff
    · exact ih h

end Frame

/-! ## Confirmations -/

/-- A response that reads `OK` is the confirmation of a transfer. -/
theorem Response.wire_eq_ok_iff {r : Response} : r.wire = "OK\n".toList ↔ r = .ok := by
  constructor
  · intro h
    have hhead : r.wire.head? = some 'O' := by
      rw [h]
      rfl
    cases r with
    | ok => rfl
    | pong => exact absurd (Option.some.inj hhead) (by decide)
    | balance id amount => exact absurd (Option.some.inj hhead) (by decide)
    | error message => exact absurd (Option.some.inj hhead) (by decide)
  · rintro rfl
    rfl

/-- There are as many lines that read `OK` as transfers that were confirmed. -/
theorem Exchange.length_confirmed (exchanges : List Exchange) :
    (confirmed exchanges).length = okLines (responses exchanges) := by
  induction exchanges with
  | nil => rfl
  | cons e exchanges ih =>
    rcases e with ⟨frame, _ | response⟩
    · exact ih
    · change (confirmed ([⟨frame, some response⟩] ++ exchanges)).length =
        okLines ([response] ++ responses exchanges)
      rw [confirmed_append, List.length_append, ih, okLines_append]
      congr 1
      by_cases h : response = .ok
      · subst h
        rfl
      · have hwire : ¬ response.wire = "OK\n".toList := fun he => h (Response.wire_eq_ok_iff.1 he)
        simpa [confirmed, okLines, h] using hwire

/-- The entry is for the transfer that the frame of the exchange asks for. -/
def Exchange.BookedAs (e : Exchange) (entry : JournalEntry) : Prop :=
  ∃ text order, e.frame = .line text ∧ Request.ofLine text = .ok (.transfer order) ∧
    entry.order = { order with amount := order.amount.asMoney }

/-- All that a frame can do to a ledger. -/
theorem Frame.reply_cases (frame : Frame) (l : Ledger) :
    ((frame.reply l).1 ≠ some .ok ∧ (frame.reply l).2 = l) ∨
      (frame.reply l).1 = some .ok ∧
        ∃ entry, (frame.reply l).2.journal = l.journal ++ [entry] ∧
          Exchange.BookedAs ⟨frame, some .ok⟩ entry := by
  unfold reply
  split
  · exact Or.inl ⟨by simp, rfl⟩
  · rename_i text _
    rcases Desk.answer_cases (Request.ofLine text) l with
      ⟨hresponse, hledger⟩ | ⟨order, source, target, p, hrequest, hok, hmade⟩
    · exact Or.inl ⟨by simpa using hresponse, hledger⟩
    · refine Or.inr ⟨congrArg some hok, ⟨l.nextNumber, p.order order⟩, hmade.journal, ?_⟩
      refine ⟨text, order, rfl, hrequest, ?_⟩
      rw [← hmade.takes.settled.booked]
      rfl
  · exact Or.inl ⟨by simp, rfl⟩

/-- The journal gets one entry for each confirmation, in order, and no others. -/
theorem booked_exchangeAll (frames : List Frame) (l : Ledger) :
    ∃ booked, (Frame.exchangeAll frames l).2.journal = l.journal ++ booked ∧
      List.Forall₂ Exchange.BookedAs (Exchange.confirmed (Frame.exchangeAll frames l).1)
        booked := by
  induction frames generalizing l with
  | nil => exact ⟨[], (List.append_nil _).symm, .nil⟩
  | cons frame frames ih =>
    obtain ⟨booked, hjournal, hbooked⟩ := ih (frame.reply l).2
    rcases frame.reply_cases l with ⟨hresponse, hledger⟩ | ⟨hok, entry, hentry, hfor⟩
    · refine ⟨booked, ?_, ?_⟩
      · change (Frame.exchangeAll frames (frame.reply l).2).2.journal = _
        rw [hjournal, hledger]
      · simpa [Exchange.confirmed, Frame.exchangeAll, hresponse] using hbooked
    · refine ⟨entry :: booked, ?_, ?_⟩
      · change (Frame.exchangeAll frames (frame.reply l).2).2.journal = _
        rw [hjournal, hentry, List.append_assoc]
        rfl
      · have hhead : Exchange.confirmed (Frame.exchangeAll (frame :: frames) l).1 =
            ⟨frame, some .ok⟩ ::
              Exchange.confirmed (Frame.exchangeAll frames (frame.reply l).2).1 := by
          simp [Exchange.confirmed, Frame.exchangeAll, hok]
        rw [hhead]
        exact .cons hfor hbooked

end TransferDesk
