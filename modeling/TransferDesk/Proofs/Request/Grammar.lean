import TransferDesk.Proofs.Decimal.Notation
import TransferDesk.Proofs.Text.Tokens
import TransferDesk.Request
/-!
# The grammar of requests

What a line asks for, said in terms of its tokens and of the text from the fifth token on.

* `ofLine_eq`: a line is read token by token, and nothing else of it counts.
* `Reads` is the grammar: which line is which request, and which is malformed. The account numbers
  are `Numeral`s, the amount is `Decimal.Spelled`, and the description is the text from the fifth
  token to the very end of the line.
* `accepts_grammar`: every line is read as the grammar has it, and what blanks separate the first
  five tokens makes no difference.
-/

namespace TransferDesk.Request

open TransferDesk.Text

/-! ## Token by token -/

theorem readId?_eq_some_iff {t : List Char} {id : AccountId} :
    readId? t = some id ↔ Numeral t id.toInt := by
  unfold readId?
  rw [← readInt32_eq_ok_iff]
  cases readInt32 10 t <;> simp [Except.toOption]

/-- The description begins with the first token, if there is one. -/
theorem readDescription_fromToken (s : List Char) :
    readDescription (fromToken 0 s) = readDescription s := by
  unfold readDescription
  rw [fromToken, trimStart_of_solid (solid_trimStart s)]

/-- The account number that token number `n` is read as. -/
def idAt? (line : List Char) (n : Nat) : Option AccountId :=
  (tokens line)[n]?.bind readId?

/-- The order that is read from token number `n` on: three tokens, and the text from the next one to
the end. -/
def orderAt? (line : List Char) (n : Nat) : Option TransferOrder := do
  let source ← idAt? line n
  let target ← idAt? line (n + 1)
  let amount ← (tokens line)[n + 2]?.bind Decimal.ofChars?
  return ⟨source, target, amount, readDescription (fromToken (n + 3) line)⟩

theorem readBalance?_eq (s : List Char) : readBalance? s = (idAt? s 0).map balance := by
  unfold readBalance? idAt?
  rcases h : splitToken? s with _ | ⟨id, rest⟩
  · rw [tokens_of_splitToken?_none h]
    rfl
  · rw [tokens_of_splitToken? h]
    rfl

theorem readTransfer?_eq (s : List Char) : readTransfer? s = (orderAt? s 0).map transfer := by
  unfold readTransfer? orderAt? idAt?
  -- a token that is missing is missing on either side
  rcases h₁ : splitToken? s with _ | ⟨source, s₁⟩
  · rw [tokens_of_splitToken?_none h₁]
    rfl
  rw [tokens_of_splitToken? h₁, fromToken_succ h₁]
  dsimp only
  rcases h₂ : splitToken? s₁ with _ | ⟨target, s₂⟩
  · rw [tokens_of_splitToken?_none h₂]
    cases readId? source <;> simp
  rw [tokens_of_splitToken? h₂, fromToken_succ h₂]
  dsimp only
  rcases h₃ : splitToken? s₂ with _ | ⟨amount, s₃⟩
  · rw [tokens_of_splitToken?_none h₃]
    cases readId? source <;> cases readId? target <;> simp
  rw [tokens_of_splitToken? h₃, fromToken_succ h₃, readDescription_fromToken]
  dsimp only
  cases hsource : readId? source <;> cases htarget : readId? target <;>
    cases hamount : Decimal.ofChars? amount <;> simp [hsource, htarget, hamount]

/-- A line is read token by token, and nothing else of it counts. -/
theorem ofLine_eq (line : List Char) :
    ofLine line =
      let verb := (tokens line)[0]?.getD []
      if verb = "PING".toList then .ok ping
      else if verb = "BALANCE".toList then
        match idAt? line 1 with
        | some id => .ok (balance id)
        | none => .error .balance
      else if verb = "TRANSFER".toList then
        match orderAt? line 1 with
        | some order => .ok (transfer order)
        | none => .error .transfer
      else .ok (unknown (String.ofList verb)) := by
  rcases h : splitToken? line with _ | ⟨verb, rest⟩
  · unfold ofLine
    rw [h, tokens_of_splitToken?_none h]
    rfl
  · have hid (n : Nat) : idAt? line (n + 1) = idAt? rest n := by
      unfold idAt?
      rw [tokens_of_splitToken? h]
      rfl
    have horder : orderAt? line 1 = orderAt? rest 0 := by
      unfold orderAt?
      rw [hid, hid, tokens_of_splitToken? h, fromToken_succ h]
      rfl
    unfold ofLine
    rw [h, tokens_of_splitToken? h, hid, horder]
    dsimp only [Option.getD_some]
    rw [readBalance?_eq, readTransfer?_eq]
    cases idAt? rest 0 <;> cases orderAt? rest 0 <;> rfl

theorem ofLine_congr {line line' : List Char} (htokens : tokens line = tokens line')
    (hfrom : fromToken 4 line = fromToken 4 line') : ofLine line = ofLine line' := by
  rw [ofLine_eq, ofLine_eq]
  unfold orderAt? idAt?
  rw [htokens, hfrom]

/-! ## The grammar -/

/-- Token number `n` is a numeral of the account. -/
def SpellsId (line : List Char) (n : Nat) (id : AccountId) : Prop :=
  ∃ t, (tokens line)[n]? = some t ∧ Numeral t id.toInt

/-- The description goes from token number `n` to the end of the line. It is the default one if
there is no such token. -/
def Describes (line : List Char) (n : Nat) (description : String) : Prop :=
  StartsToken n line description.toList ∨
    (tokens line).length ≤ n ∧ description = TransferOrder.defaultDescription

/-- What follows the verb spells an order. -/
structure SpellsOrder (line : List Char) (order : TransferOrder) : Prop where
  source : SpellsId line 1 order.source
  target : SpellsId line 2 order.target
  amount : ∃ t, (tokens line)[3]? = some t ∧ Decimal.Spelled t order.amount
  description : Describes line 4 order.description

/-- The verbs that are known. -/
def verbs : List (List Char) :=
  ["PING".toList, "BALANCE".toList, "TRANSFER".toList]

/-- The grammar of requests. -/
inductive Reads (line : List Char) : Except Malformed Request → Prop
  | ping (hverb : (tokens line)[0]? = some "PING".toList) : Reads line (.ok ping)
  | balance {id : AccountId} (hverb : (tokens line)[0]? = some "BALANCE".toList)
    (hid : SpellsId line 1 id) : Reads line (.ok (balance id))
  | malformedBalance (hverb : (tokens line)[0]? = some "BALANCE".toList)
    (hno : ∀ id, ¬ SpellsId line 1 id) : Reads line (.error .balance)
  | transfer {order : TransferOrder} (hverb : (tokens line)[0]? = some "TRANSFER".toList)
    (horder : SpellsOrder line order) : Reads line (.ok (transfer order))
  | malformedTransfer (hverb : (tokens line)[0]? = some "TRANSFER".toList)
    (hno : ∀ order, ¬ SpellsOrder line order) : Reads line (.error .transfer)
  | unknown {verb : List Char} (hverb : (tokens line)[0]? = some verb) (hno : verb ∉ verbs) :
    Reads line (.ok (unknown (String.ofList verb)))
  | blank (hno : tokens line = []) : Reads line (.ok (unknown ""))

theorem idAt?_eq_some_iff {line : List Char} {n : Nat} {id : AccountId} :
    idAt? line n = some id ↔ SpellsId line n id := by
  unfold idAt? SpellsId
  rw [Option.bind_eq_some_iff]
  exact exists_congr fun t => and_congr_right fun _ => readId?_eq_some_iff

theorem readDescription_fromToken_eq_iff {n : Nat} {line : List Char} {description : String} :
    readDescription (fromToken n line) = description ↔ Describes line n description := by
  unfold Describes
  rw [← fromToken_eq_iff, ← fromToken_eq_nil_iff]
  by_cases hnil : fromToken n line = []
  · rw [hnil]
    constructor
    · rintro rfl
      exact Or.inr ⟨rfl, rfl⟩
    · rintro (⟨hd, hne⟩ | ⟨-, rfl⟩)
      · exact absurd hd.symm hne
      · rfl
  · obtain ⟨-, -, -, -, -, hsolid⟩ := startsToken_fromToken hnil
    have hread : readDescription (fromToken n line) = String.ofList (fromToken n line) := by
      unfold readDescription
      rw [trimStart_of_solid hsolid]
      split
      · rename_i h
        exact absurd h hnil
      · rename_i h
        rw [h]
    rw [hread]
    constructor
    · rintro rfl
      rw [String.toList_ofList]
      exact Or.inl ⟨rfl, hnil⟩
    · rintro (⟨hd, -⟩ | ⟨h, -⟩)
      · rw [hd, String.ofList_toList]
      · exact absurd h hnil

theorem orderAt?_eq_some_iff {line : List Char} {order : TransferOrder} :
    orderAt? line 1 = some order ↔ SpellsOrder line order := by
  unfold orderAt?
  constructor
  · intro h
    obtain ⟨source, hsource, h⟩ := Option.bind_eq_some_iff.1 h
    obtain ⟨target, htarget, h⟩ := Option.bind_eq_some_iff.1 h
    obtain ⟨amount, hamount, h⟩ := Option.bind_eq_some_iff.1 h
    obtain ⟨t, ht, hread⟩ := Option.bind_eq_some_iff.1 hamount
    obtain rfl := Option.some.inj h
    exact {
      source := idAt?_eq_some_iff.1 hsource
      target := idAt?_eq_some_iff.1 htarget
      amount := ⟨t, ht, Decimal.ofChars?_eq_some_iff.1 hread⟩
      description := readDescription_fromToken_eq_iff.1 rfl }
  · rintro ⟨hsource, htarget, ⟨t, ht, hamount⟩, hdescription⟩
    rw [idAt?_eq_some_iff.2 hsource, idAt?_eq_some_iff.2 htarget, ht,
      readDescription_fromToken_eq_iff.2 hdescription]
    change (Decimal.ofChars? t).bind _ = _
    rw [Decimal.ofChars?_eq_some_iff.2 hamount]
    rfl

/-- A line is read as the grammar has it. -/
theorem reads_ofLine (line : List Char) : Reads line (ofLine line) := by
  rw [ofLine_eq]
  rcases hverb : (tokens line)[0]? with _ | verb
  · have hno : tokens line = [] := by
      rw [List.getElem?_eq_none_iff] at hverb
      exact List.length_eq_zero_iff.1 (Nat.le_zero.1 hverb)
    exact .blank hno
  dsimp only [Option.getD_some]
  split
  · subst verb
    exact .ping hverb
  split
  · subst verb
    rcases hid : idAt? line 1 with _ | id
    · refine .malformedBalance hverb fun id h => ?_
      rw [idAt?_eq_some_iff.2 h] at hid
      cases hid
    · exact .balance hverb (idAt?_eq_some_iff.1 hid)
  split
  · subst verb
    rcases horder : orderAt? line 1 with _ | order
    · refine .malformedTransfer hverb fun order h => ?_
      rw [orderAt?_eq_some_iff.2 h] at horder
      cases horder
    · exact .transfer hverb (orderAt?_eq_some_iff.1 horder)
  · refine .unknown hverb ?_
    simp_all [verbs]

/-- The grammar leaves no choice. -/
theorem Reads.eq_ofLine {line : List Char} {outcome : Except Malformed Request}
    (h : Reads line outcome) : ofLine line = outcome := by
  rw [ofLine_eq]
  cases h with
  | ping hverb =>
    rw [hverb]
    rfl
  | balance hverb hid =>
    rw [hverb, idAt?_eq_some_iff.2 hid]
    rfl
  | malformedBalance hverb hno =>
    have hnone : idAt? line 1 = none :=
      Option.eq_none_iff_forall_ne_some.2 fun id h => hno id (idAt?_eq_some_iff.1 h)
    rw [hverb, hnone]
    rfl
  | transfer hverb horder =>
    rw [hverb, orderAt?_eq_some_iff.2 horder]
    rfl
  | malformedTransfer hverb hno =>
    have hnone : orderAt? line 1 = none :=
      Option.eq_none_iff_forall_ne_some.2 fun order h => hno order (orderAt?_eq_some_iff.1 h)
    rw [hverb, hnone]
    rfl
  | unknown hverb hno =>
    simp only [verbs, List.mem_cons, List.not_mem_nil, or_false, not_or] at hno
    rw [hverb]
    dsimp only [Option.getD_some]
    rw [if_neg hno.1, if_neg hno.2.1, if_neg hno.2.2]
  | blank hno =>
    rw [hno]
    rfl

/-- What blanks stand in front of a line, or between two of its first five tokens, makes no
difference. -/
theorem ofLine_gap {front gap gap' : List Char} (hgap : Blank gap) (hgap' : Blank gap')
    (hcount : (tokens front).length ≤ 4) (hne : front = [] ∨ gap ≠ [])
    (hne' : front = [] ∨ gap' ≠ []) (back : List Char) :
    ofLine (front ++ gap ++ back) = ofLine (front ++ gap' ++ back) := by
  refine ofLine_congr ?_ ?_
  · rw [tokens_append_gap hgap hne, tokens_append_gap hgap' hne']
  · rw [fromToken_gap hgap hcount hne, fromToken_gap hgap' hcount hne']

/-- Exactly the grammar is accepted. Every line is one request or is malformed in one way, and an
amount is a decimal in plain notation, or failing that in scientific notation. Blanks only separate:
which ones stand in front of a line, or between two of its first five tokens, makes no
difference. -/
theorem accepts_grammar :
    (∀ line outcome, ofLine line = outcome ↔ Reads line outcome) ∧
    (∀ t, (∃ d, Decimal.Spelled t d) ↔ Decimal.PlainNotation t ∨ Decimal.ScientificNotation t) ∧
    (∀ t, Decimal.PlainNotation t → (Decimal.writtenCoeff t).natAbs < Nat.pow 2 96 →
      Decimal.writtenPlaces t ≤ 28 → ∀ d, Decimal.Spelled t d ↔
        Decimal.ofParts? (Decimal.writtenCoeff t) (Decimal.writtenPlaces t) = some d) ∧
    (∀ front gap gap' back, Blank gap → Blank gap' → (tokens front).length ≤ 4 →
      front = [] ∨ (gap ≠ [] ∧ gap' ≠ []) →
      ofLine (front ++ gap ++ back) = ofLine (front ++ gap' ++ back)) := by
  refine ⟨?_, Decimal.exists_spelled_iff, ?_, ?_⟩
  · intro line outcome
    constructor
    · rintro rfl
      exact reads_ofLine line
    · exact Reads.eq_ofLine
  · intro t ht hcoeff hplaces d
    exact Decimal.spelled_of_fits ht hcoeff hplaces
  · intro front gap gap' back hgap hgap' hcount hne
    exact ofLine_gap hgap hgap' hcount (hne.imp_right And.left) (hne.imp_right And.right) back

/-- An em space and a tab separate two account numbers as one space does. -/
theorem reads_whatever_gap :
    Decimal.Spelled "2.50".toList { negative := false, magnitude := 250, scale := 2 } ∧
    Reads ("TRANSFER -7".toList ++ "\u2003\t".toList ++ "+08 2.50   dinner  for two ".toList)
      (.ok (transfer
        ⟨-7, 8, { negative := false, magnitude := 250, scale := 2 }, "dinner  for two "⟩)) := by
  obtain ⟨hreads, -, hspelled, hgap⟩ := accepts_grammar
  have hplain : Decimal.PlainNotation "2.50".toList :=
    (Decimal.isSome_readPlain_iff _).1 (by decide +kernel)
  refine ⟨(hspelled _ hplain (by decide +kernel) (by decide +kernel) _).2 (by decide +kernel), ?_⟩
  have hsame := hgap "TRANSFER -7".toList "\u2003\t".toList " ".toList
    "+08 2.50   dinner  for two ".toList (by decide +kernel)
    (by decide +kernel) (by decide +kernel) (Or.inr ⟨by decide, by decide⟩)
  rw [← hreads, hsame]
  rfl

end TransferDesk.Request
