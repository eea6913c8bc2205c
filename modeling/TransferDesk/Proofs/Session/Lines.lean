import TransferDesk.Proofs.Framing.Reference
import TransferDesk.Proofs.Response
import TransferDesk.Proofs.Session.Exchanges
import TransferDesk.Proofs.Text.Utf8
/-!
# The lines that a client gets

Every response is one line, whatever is in the text of an error: the bytes of responses are cut
behind their line feeds into the bytes of each (`linePieces_flatMap_bytes`).

When the bank fails at the request of a frame (`Frame.outage?`), the line shows how
(`Frame.reply_of_outage`).
-/

namespace TransferDesk

/-! ## One line for each response -/

namespace Response

/-- The bytes of a response are a line and its line feed. -/
theorem bytes_eq (r : Response) :
    ∃ content, r.bytes = content ++ [lineFeed] ∧ lineFeed ∉ content := by
  refine ⟨Text.Utf8.encode r.line, Text.Utf8.encode_append r.line ['\n'], ?_⟩
  rw [Text.Utf8.mem_encode_iff (by decide)]
  intro h
  exact (r.unbroken_line _ h).1 rfl

end Response

/-- The lines of responses are the responses. -/
theorem linePieces_flatMap_bytes (responses : List Response) :
    linePieces (responses.flatMap Response.bytes) = responses.map Response.bytes := by
  induction responses with
  | nil => rfl
  | cons r responses ih =>
    obtain ⟨content, hbytes, hfeed⟩ := r.bytes_eq
    rw [List.flatMap_cons, List.map_cons, hbytes, List.append_assoc, List.singleton_append,
      linePieces_line hfeed, ih]

/-! ## Calls that fail -/

/-- How a call has failed, if it has. -/
def Outcome.outage? {α : Type} : Outcome α → Option Outage
  | value _ => none
  | refused fault => some (.refusal fault)
  | crashed => some .crash

/-- The line that shows how a call has failed. -/
def Outage.line : Outage → List Char
  | refusal fault => "ERROR ".toList ++ fault.message.toList.map Response.onOneLine
  | crash => "ERROR Internal error".toList

section Calls

variable {σ : Type} [Bank σ]

/-- How the bank fails at a request, if it is called and does. -/
def Request.outage? : Request → σ → Option Outage
  | balance id, bank => (Bank.balance id bank).1.outage?
  | transfer order, bank => (Bank.transfer order bank).1.outage?
  | ping, _ => none
  | unknown _, _ => none

/-- How the bank fails at the request of a frame, if the frame is one and it does. -/
def Frame.outage? : Frame → σ → Option Outage
  | line text, bank =>
    match Request.ofLine text with
    | .ok request => request.outage? bank
    | .error _ => none
  | oversized, _ => none

theorem Desk.line_respond {α : Type} {value : α → Response} {outcome : Outcome α} {outage : Outage}
    (h : outcome.outage? = some outage) : (respond value outcome).line = outage.line := by
  cases outcome with
  | value a => cases h
  | refused fault =>
    cases h
    rfl
  | crashed =>
    cases h
    rfl

theorem Desk.line_serve {request : Request} {bank : σ} {outage : Outage}
    (h : request.outage? bank = some outage) : (serve request bank).1.line = outage.line := by
  cases request with
  | balance id => exact line_respond h
  | transfer order => exact line_respond h
  | ping => cases h
  | unknown verb => cases h

/-- A frame at whose request the bank fails is answered with the line that shows how. -/
theorem Frame.reply_of_outage {frame : Frame} {bank : σ} {outage : Outage}
    (h : frame.outage? bank = some outage) :
    ∃ response, (frame.reply bank).1 = some response ∧ response.line = outage.line := by
  cases frame with
  | oversized => cases h
  | line text =>
    change (match Request.ofLine text with
      | .ok request => request.outage? bank
      | .error _ => none) = some outage at h
    rcases hrequest : Request.ofLine text with malformed | request
    · rw [hrequest] at h
      cases h
    · rw [hrequest] at h
      rcases text with _ | ⟨c, cs⟩
      · -- an empty line is an unknown request, for which the bank is not called
        obtain rfl := Except.ok.inj hrequest
        cases h
      · refine ⟨(Desk.serve request bank).1, ?_, Desk.line_serve h⟩
        change some (Desk.answer (Request.ofLine (c :: cs)) bank).1 = _
        rw [hrequest]
        rfl

/-- The exchange of a frame is with the bank as the frames before have left it. -/
theorem Frame.getElem?_exchangeAll (frames : List Frame) (bank : σ) (i : Nat) :
    (exchangeAll frames bank).1[i]? = frames[i]?.map fun frame =>
      ⟨frame, (frame.reply (exchangeAll (frames.take i) bank).2).1⟩ := by
  induction frames generalizing bank i with
  | nil => rfl
  | cons frame frames ih =>
    cases i with
    | zero => rfl
    | succ i => exact ih (frame.reply bank).2 i

end Calls

end TransferDesk
