import Mathlib.Data.List.DropRight
import TransferDesk.Proofs.Decimal.Printed
import TransferDesk.Proofs.Framing.Polling
import TransferDesk.Proofs.Request.Grammar
import TransferDesk.Proofs.Text.Utf8
/-!
# Requests on the wire

A request can be written as a line (`Request.toChars`) and be read back from the bytes of that line.

* `ofLine_toChars`: the grammar reads the line of a request that is `Writable` as that request.
* `OneLine` says of a text that a line ending makes a line of it, and `OneLine.drain` that its bytes
  are framed as that line, whatever reads they come in.
* `survives_wire`: a request is one line (`Writable.oneLine`), so it comes through whole.
-/

namespace TransferDesk

open TransferDesk.Text TransferDesk.Text.Utf8

/-! ## Words -/

namespace Text

/-- What can be seen is not blank. -/
theorem isBlank_of_visible {c : Char} (h : 33 ≤ c.toNat) (h' : c.toNat ≤ 126) :
    isBlank c = false := by
  simp [isBlank, blankRanges]
  omega

theorem isBlank_of_isDigit {c : Char} (h : c.isDigit) : isBlank c = false := by
  obtain ⟨hlow, hhigh⟩ := toNat_of_isDigit h
  exact isBlank_of_visible (by omega) (by omega)

theorem Numeral.isWord {t : List Char} {z : Int} (h : Numeral t z) : IsWord t where
  nonempty := by
    cases h with
    | bare h => exact h.nonempty
    | plus h => exact List.cons_ne_nil _ _
    | minus h => exact List.cons_ne_nil _ _
  solid c hc := by
    rcases h.mem hc with rfl | rfl | hdigit
    · rfl
    · rfl
    · exact isBlank_of_isDigit hdigit

end Text

theorem Decimal.isWord_toChars (d : Decimal) : IsWord d.toChars where
  nonempty := by
    refine List.append_ne_nil_of_right_ne_nil _ (List.append_ne_nil_of_left_ne_nil ?_ _)
    exact Nat.toDigits_ne_nil
  solid c hc := by
    rcases List.mem_append.1 hc with hc | hc
    · rw [mem_signText hc]
      rfl
    · rcases mem_magnitudeText hc with rfl | hdigit
      · rfl
      · exact isBlank_of_isDigit hdigit

/-! ## Writing requests -/

/-- The line of an order: the verb, the account numbers, the amount with all its places and the
description, with a space between any two of them. -/
def TransferOrder.toChars (order : TransferOrder) : List Char :=
  "TRANSFER".toList ++ ' ' :: (integerChars order.source.toInt ++ ' ' ::
    (integerChars order.target.toInt ++ ' ' :: (order.amount.toChars ++ ' ' ::
      order.description.toList)))

namespace Request

/-- The line of a request. -/
def toChars : Request → List Char
  | ping => "PING".toList
  | balance id => "BALANCE".toList ++ ' ' :: integerChars id.toInt
  | transfer order => order.toChars
  | unknown verb => verb.toList

/-- The requests that their lines show as they are. A zero is written without a minus, a description
begins with its first character that is not blank, and it ends before the line does. -/
inductive Writable : Request → Prop
  | ping : Writable ping
  | balance (id : AccountId) : Writable (balance id)
  | transfer {order : TransferOrder}
    (hzero : order.amount.magnitude = 0 → order.amount.negative = false)
    (hnonempty : order.description.toList ≠ []) (hsolid : Solid order.description.toList)
    (hfeed : '\n' ∉ order.description.toList)
    (hreturn : order.description.toList.getLast? ≠ some '\r') : Writable (transfer order)
  | unknown {verb : String} (hword : IsWord verb.toList) (hno : verb.toList ∉ verbs) :
    Writable (unknown verb)

/-- A written order is spelled by its line. -/
theorem spellsOrder_toChars {order : TransferOrder}
    (hzero : order.amount.magnitude = 0 → order.amount.negative = false)
    (hnonempty : order.description.toList ≠ []) (hsolid : Solid order.description.toList) :
    (tokens order.toChars)[0]? = some "TRANSFER".toList ∧ SpellsOrder order.toChars order := by
  have hverb : IsWord "TRANSFER".toList := by decide
  have hsource := numeral_integerChars order.source.toInt
  have htarget := numeral_integerChars order.target.toInt
  have hspace : isBlank ' ' := rfl
  have htokens : tokens order.toChars = "TRANSFER".toList :: integerChars order.source.toInt ::
      integerChars order.target.toInt :: order.amount.toChars ::
        tokens order.description.toList := by
    unfold TransferOrder.toChars
    rw [tokens_word_blank hverb hspace, tokens_word_blank hsource.isWord hspace,
      tokens_word_blank htarget.isWord hspace, tokens_word_blank order.amount.isWord_toChars hspace]
  have hfrom : fromToken 4 order.toChars = order.description.toList := by
    unfold TransferOrder.toChars
    rw [fromToken_word_blank hverb hspace, fromToken_word_blank hsource.isWord hspace,
      fromToken_word_blank htarget.isWord hspace,
      fromToken_word_blank order.amount.isWord_toChars hspace]
    exact trimStart_of_solid hsolid
  rw [htokens]
  refine ⟨rfl, ?_⟩
  exact {
    source := ⟨_, by rw [htokens]; rfl, hsource⟩
    target := ⟨_, by rw [htokens]; rfl, htarget⟩
    amount := by
      refine ⟨order.amount.toChars, by rw [htokens]; rfl, ?_⟩
      exact Decimal.ofChars?_eq_some_iff.1
        (Decimal.ofChars?_of_readPlain (Decimal.readPlain_toChars hzero))
    description := Or.inl (fromToken_eq_iff.1 ⟨hfrom, hnonempty⟩) }

/-- The grammar reads the line of a request as that request. -/
theorem ofLine_toChars {request : Request} (h : request.Writable) :
    ofLine request.toChars = .ok request := by
  refine Reads.eq_ofLine ?_
  cases h with
  | ping => exact .ping rfl
  | balance id =>
    have hverb : IsWord "BALANCE".toList := by decide
    have hid := numeral_integerChars id.toInt
    have htokens : tokens (balance id).toChars = ["BALANCE".toList, integerChars id.toInt] := by
      unfold toChars
      rw [tokens_word_blank hverb rfl, tokens_word hid.isWord]
    refine .balance ?_ ⟨integerChars id.toInt, ?_, hid⟩
    · rw [htokens]
      rfl
    · rw [htokens]
      rfl
  | transfer hzero hnonempty hsolid =>
    obtain ⟨hverb, horder⟩ := spellsOrder_toChars hzero hnonempty hsolid
    exact .transfer hverb horder
  | @unknown verb hword hno =>
    have htokens : tokens (unknown verb).toChars = [verb.toList] := tokens_word hword
    have hverb : (tokens (unknown verb).toChars)[0]? = some verb.toList := by
      rw [htokens]
      rfl
    have hreads := Reads.unknown hverb hno
    rwa [String.ofList_toList] at hreads

end Request

/-! ## The bytes of a line -/

/-- The line endings: a line feed, with a carriage return in front of it or without. -/
def lineEndings : List (List Char) :=
  [['\n'], ['\r', '\n']]

theorem mem_lineEndings_iff {breaks : List Char} :
    breaks ∈ lineEndings ↔ breaks = ['\n'] ∨ breaks = ['\r', '\n'] := by
  simp [lineEndings]

/-- A text that a line ending behind it makes a line of its own. -/
structure OneLine (t : List Char) : Prop where
  no_feed : '\n' ∉ t
  no_return : t.getLast? ≠ some '\r'

/-- Line breaks are blank, so words have none. -/
theorem OneLine.of_isWord {w : List Char} (h : IsWord w) : OneLine w where
  no_feed hfeed := by cases h.solid _ hfeed
  no_return hlast := by cases h.solid _ (List.mem_of_getLast? hlast)

theorem OneLine.behind {w t : List Char} (hw : IsWord w) (ht : OneLine t) (hne : t ≠ []) :
    OneLine (w ++ ' ' :: t) where
  no_feed := by
    have hspace : '\n' ≠ ' ' := by decide
    rw [List.mem_append, List.mem_cons, not_or, not_or]
    exact ⟨(OneLine.of_isWord hw).no_feed, hspace, ht.no_feed⟩
  no_return := by
    rw [List.getLast?_append_cons, List.getLast?_cons_of_ne_nil hne]
    exact ht.no_return

/-- A line without its ending is the text that has been written. -/
theorem OneLine.stripLineBreaks {t : List Char} (h : OneLine t) {breaks : List Char}
    (hbreaks : breaks ∈ lineEndings) : stripLineBreaks (t ++ breaks) = t := by
  have hpos (c : Char) (hc : c = '\n' ∨ c = '\r') (s : List Char) :
      TransferDesk.stripLineBreaks (s ++ [c]) = TransferDesk.stripLineBreaks s :=
    List.rdropWhile_concat_pos _ _ _ (decide_eq_true hc)
  have hstop : TransferDesk.stripLineBreaks t = t := by
    refine List.rdropWhile_eq_self_iff.2 ?_
    intro hne hlast
    have hmem := List.getLast_mem hne
    rcases of_decide_eq_true hlast with hfeed | hreturn
    · exact h.no_feed (hfeed ▸ hmem)
    · exact h.no_return (by rw [List.getLast?_eq_getLast_of_ne_nil hne, hreturn])
  rcases mem_lineEndings_iff.1 hbreaks with rfl | rfl
  · rw [hpos _ (Or.inl rfl), hstop]
  · rw [← List.singleton_append, ← List.append_assoc, hpos _ (Or.inl rfl), hpos _ (Or.inr rfl),
      hstop]

/-- The bytes of a text and a line ending are one line, which is that text if there is room for
it. -/
theorem OneLine.exists_content {t : List Char} (h : OneLine t) {breaks : List Char}
    (hbreaks : breaks ∈ lineEndings) {size : Nat} (hfits : (encode t).length ≤ size) :
    ∃ content, encode (t ++ breaks) = content ++ [lineFeed] ∧ lineFeed ∉ content ∧
      lineFrame size content = .line t := by
  have hdecode : decodeLine (encode (t ++ breaks)) = t := by
    unfold decodeLine
    rw [decodeLossy_encode, h.stripLineBreaks hbreaks]
  have hfeed : lineFeed ∉ encode t := by
    rw [mem_encode_iff (by decide)]
    exact h.no_feed
  have hframe {content : List UInt8} (hbytes : encode (t ++ breaks) = content ++ [lineFeed])
      (hroom : contentLength content ≤ size) : lineFrame size content = .line t := by
    unfold lineFrame
    rw [if_neg (Nat.not_lt.2 hroom), ← hbytes, hdecode]
  rcases mem_lineEndings_iff.1 hbreaks with rfl | rfl
  · have hbytes : encode (t ++ ['\n']) = encode t ++ [lineFeed] := encode_append t ['\n']
    refine ⟨encode t, hbytes, hfeed, hframe hbytes ?_⟩
    exact Nat.le_trans (FrameBuffer.contentLength_le _) hfits
  · have hbytes : encode (t ++ ['\r', '\n']) = (encode t ++ [carriageReturn]) ++ [lineFeed] := by
      rw [encode_append, List.append_assoc]
      rfl
    refine ⟨encode t ++ [carriageReturn], hbytes, ?_, hframe hbytes ?_⟩
    · rw [List.mem_append, List.mem_singleton, not_or]
      exact ⟨hfeed, by decide⟩
    · -- a carriage return in last place takes no room
      unfold contentLength
      rw [if_pos List.getLast?_concat, List.length_append, List.length_singleton,
        Nat.add_sub_cancel]
      exact hfits

/-- The bytes of one line are framed as that line, whatever reads they come in. -/
theorem OneLine.drain {t : List Char} (h : OneLine t) {breaks : List Char}
    (hbreaks : breaks ∈ lineEndings) {size : Nat} (hfits : (encode t).length ≤ size)
    {chunks : List (List UInt8)} (hchunks : [] ∉ chunks)
    (hbytes : chunks.flatten = encode (t ++ breaks)) (ending : Ending) :
    (FrameBuffer.create .byLine size).drain (.ofChunks (max size 1) (chunks.map .bytes) ending) =
      [.frame (.line t), ending.delivery] := by
  obtain ⟨content, hcontent, hfeed, hframe⟩ := h.exists_content hbreaks
    (Nat.le_trans hfits (Nat.le_max_left size 1))
  change _ = [Frame.line t].map Delivery.frame ++ [ending.delivery]
  refine FrameBuffer.drain_of_complete rfl ?_ ?_
  · intro a ha
    obtain ⟨chunk, hchunk, hcut⟩ := List.mem_flatMap.1 ha
    obtain ⟨bytes, hmem, rfl⟩ := List.mem_map.1 hchunk
    have hne : bytes ≠ [] := fun he => hchunks (he ▸ hmem)
    obtain ⟨piece, hpiece, rfl⟩ := List.mem_map.1 hcut
    exact ne_nil_of_mem_pieces hne hpiece
  · intro more
    change referenceFrames (max size 1)
      (contents ((chunks.map Arrival.bytes).flatMap (·.cut (max size 1))) ++ more) = _
    rw [FrameBuffer.contents_cuts, FrameBuffer.contents_map_bytes, hbytes, hcontent,
      List.append_assoc, List.singleton_append, referenceFrames_line hfeed, hframe]
    rfl

namespace Request

/-- A request is written on one line. -/
theorem Writable.oneLine {request : Request} (h : request.Writable) : OneLine request.toChars := by
  have hnumber (id : AccountId) : IsWord (integerChars id.toInt) :=
    (numeral_integerChars id.toInt).isWord
  cases h with
  | ping => exact .of_isWord (by decide)
  | balance id =>
    have hid := OneLine.of_isWord (hnumber id)
    exact hid.behind (by decide) (hnumber id).nonempty
  | @transfer order hzero hnonempty hsolid hfeed hreturn =>
    have hdescription : OneLine order.description.toList := ⟨hfeed, hreturn⟩
    have hamount := hdescription.behind order.amount.isWord_toChars hnonempty
    have htarget := hamount.behind (hnumber order.target) (by simp)
    have hsource := htarget.behind (hnumber order.source) (by simp)
    exact hsource.behind (by decide) (by simp)
  | unknown hword hno => exact .of_isWord hword

/-- A request survives the wire. Its line is written as UTF-8 with either ending and arrives in any
chunks, of which reads take at most what fits into the buffer. If the line fits, that one line is
framed, as soon as it is complete, and it is read as the same request: an order with the same
account numbers, the same amount at the same scale and the same description. -/
theorem survives_wire {request : Request} (hrequest : request.Writable) {breaks : List Char}
    (hbreaks : breaks ∈ lineEndings) {size : Nat} (hfits : (encode request.toChars).length ≤ size)
    {chunks : List (List UInt8)} (hchunks : [] ∉ chunks)
    (hbytes : chunks.flatten = encode (request.toChars ++ breaks)) (ending : Ending) :
    (FrameBuffer.create .byLine size).drain (.ofChunks (max size 1) (chunks.map .bytes) ending) =
        [.frame (.line request.toChars), ending.delivery] ∧
      ofLine request.toChars = .ok request := by
  constructor
  · exact hrequest.oneLine.drain hbreaks hfits hchunks hbytes ending
  · exact ofLine_toChars hrequest

/-- An order with a minus, with places that end with a zero, and with a description that has a
character of two bytes, blanks inside and one at its end. -/
def coffeeOrder : TransferOrder where
  source := -5
  target := 7
  amount := { negative := true, magnitude := 1250, scale := 3 }
  description := "café  au lait "

/-- The bytes of an order in two chunks, cut between the two bytes of one character. -/
def coffeeChunks : List (List UInt8) :=
  let bytes := encode (coffeeOrder.toChars ++ ['\r', '\n'])
  [bytes.take 25, bytes.drop 25]

theorem coffeeOrder_survives :
    (transfer coffeeOrder).Writable ∧ ['\r', '\n'] ∈ lineEndings ∧
    (encode (transfer coffeeOrder).toChars).length ≤ 36 ∧ [] ∉ coffeeChunks ∧
    coffeeChunks.flatten = encode ((transfer coffeeOrder).toChars ++ ['\r', '\n']) ∧
    (FrameBuffer.create .byLine 36).drain (.ofChunks (max 36 1) (coffeeChunks.map .bytes) .silent) =
      [.frame (.line "TRANSFER -5 7 -1.250 café  au lait ".toList), .waiting] ∧
    ofLine "TRANSFER -5 7 -1.250 café  au lait ".toList = .ok (transfer coffeeOrder) := by
  have hrequest : (transfer coffeeOrder).Writable := by
    refine .transfer (by decide) (by decide) ?_ (by decide +kernel) (by decide +kernel)
    intro c hc
    obtain rfl : 'c' = c := Option.some.inj hc
    rfl
  have hbreaks : ['\r', '\n'] ∈ lineEndings := by decide
  have hfits : (encode (transfer coffeeOrder).toChars).length ≤ 36 := by decide +kernel
  have hchunks : [] ∉ coffeeChunks := by decide +kernel
  have hbytes : coffeeChunks.flatten = encode ((transfer coffeeOrder).toChars ++ ['\r', '\n']) := by
    decide +kernel
  have hline : (transfer coffeeOrder).toChars = "TRANSFER -5 7 -1.250 café  au lait ".toList := by
    decide +kernel
  rw [← hline]
  exact ⟨hrequest, hbreaks, hfits, hchunks, hbytes,
    survives_wire hrequest hbreaks hfits hchunks hbytes .silent⟩

end Request

end TransferDesk
