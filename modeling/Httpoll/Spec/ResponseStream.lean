import Httpoll.ForStd.Rfc7230
import Httpoll.Spec.ResponseLayout

/-!
# A stream of responses

What a client reads when a connection is kept and gets several responses of `MakeResponse`,
one after the other. `MakeResponse` gives the length of a body that is not empty, and no length
of an empty one; the caller may give lengths of its own among the headers.

## Key results

- `makeResponse_stream`: when such a stream reads back as the responses that were made
-/

namespace Httpoll.Native

/-- The arguments of `MakeResponse`, with headers that can be sent. -/
structure ResponseCall where
  statusCode : Int
  version : HttpVersion
  headers : ResponseHeaders
  body : Bytes
  fieldsOk : ∀ e ∈ headers.entries, Rfc7230.FieldOk e

/-- The line that tells the size of the body, as a field. -/
def lengthFields (body : Bytes) : List (Bytes × Bytes) :=
  if body = [] then [] else [(ascii "Content-Length", decimal body.length)]

namespace ResponseCall

variable (c : ResponseCall)

/-- The call. -/
def make : Option Bytes := makeResponse c.statusCode c.version c.headers c.body

/-- The response that is to be sent. -/
def response : Rfc7230.Response where
  head :=
    { version := httpVersionToString c.version
      code := (sentCode c.statusCode).toNat
      reason := ascii ((reasonPhrase (sentCode c.statusCode)).getD "")
      fields := c.headers.entries ++ lengthFields c.body }
  body := c.body

/-- What the caller gives as `Content-Length`. -/
def lengths : List Bytes :=
  (c.headers.entries.filter fun e =>
    e.1.map Rfc7230.toLower = Rfc7230.Head.contentLength).map Prod.snd

/-- The caller gives no `Transfer-Encoding`. -/
def Plain : Prop :=
  ∀ e ∈ c.headers.entries, e.1.map Rfc7230.toLower ≠ Rfc7230.Head.transferEncoding

/-- The code that is sent is one of those without a body. -/
def Bodyless : Prop :=
  sentCode c.statusCode / 100 = 1 ∨ sentCode c.statusCode = 204 ∨ sentCode c.statusCode = 304

/-- The version can be sent. -/
def Versioned : Prop :=
  c.version = .HTTP_1_0 ∨ c.version = .HTTP_1_1 ∨ c.version = .HTTP_2_0

instance : Decidable c.Plain := inferInstanceAs (Decidable (∀ e ∈ _, _))

instance : Decidable c.Bodyless := inferInstanceAs (Decidable (_ ∨ _ ∨ _))

instance : Decidable c.Versioned := inferInstanceAs (Decidable (_ ∨ _ ∨ _))

/-- The client can tell where the body ends. A code without a body must not come with one. With
    the other codes a body that is empty needs a length from the caller, and no length from the
    caller may be another than that of the body. -/
def Delimited : Prop :=
  c.Versioned ∧
    (c.Bodyless ∧ c.body = [] ∨
      ¬ c.Bodyless ∧ c.Plain ∧ (c.body = [] → c.lengths ≠ []) ∧
        ∀ value ∈ c.lengths, Rfc7230.number value = some c.body.length)

/-- The client takes all that follows for the body. -/
def UntilClose : Prop :=
  c.Versioned ∧ ¬ c.Bodyless ∧ c.Plain ∧ c.body = [] ∧ c.lengths = []

instance : Decidable c.Delimited := inferInstanceAs (Decidable (_ ∧ (_ ∨ _)))

instance : Decidable c.UntilClose := inferInstanceAs (Decidable (_ ∧ _ ∧ _ ∧ _ ∧ _))

/-! ## What is sent -/

theorem range_sentCode (statusCode : Int) :
    100 ≤ sentCode statusCode ∧ sentCode statusCode ≤ 599 := by
  obtain ⟨reason, hreason⟩ := exists_reasonPhrase statusCode
  exact range_of_reasonPhrase (Option.isSome_iff_exists.mpr ⟨reason, hreason⟩)

/-- A code in decimal. -/
theorem formatInt_eq_codeDigits {code : Int} (h : 100 ≤ code ∧ code ≤ 599) :
    formatInt code = Rfc7230.codeDigits code.toNat := by
  -- there are only 500 codes that are sent
  have hcodes : ∀ n : Fin 600, 100 ≤ n.val → decimal n = Rfc7230.codeDigits n := by
    decide +kernel
  obtain ⟨n, rfl⟩ := Int.eq_ofNat_of_zero_le (show 0 ≤ code by omega)
  exact hcodes ⟨n, by omega⟩ (by simp only; omega)

theorem headerLine_eq (e : Bytes × Bytes) : headerLine e = Rfc7230.Head.fieldText e := by
  rw [headerLine, List.append_assoc]
  rfl

theorem lengthLines_eq (body : Bytes) :
    lengthLines body = (lengthFields body).map Rfc7230.Head.fieldText := by
  unfold lengthLines lengthFields
  split <;> rfl

/-- The call writes the response. -/
theorem make_eq : c.make = some c.response.encode := by
  obtain ⟨reason, hreason⟩ := exists_reasonPhrase c.statusCode
  have hfirst : statusLine c.version (sentCode c.statusCode) reason =
      c.response.head.statusText := by
    rw [statusLine, formatInt_eq_codeDigits (range_sentCode c.statusCode)]
    simp only [response, Rfc7230.Head.statusText, hreason, Option.getD_some, List.append_assoc]
    rfl
  have hlines : responseLines c.version (sentCode c.statusCode) reason c.headers c.body =
      c.response.head.lines := by
    rw [responseLines, hfirst, lengthLines_eq, funext headerLine_eq, ← List.map_append]
    rfl
  -- the lines, the empty line and the body are what the encoder of RFC 7230 writes
  rw [make, makeResponse_eq _ _ _ _ hreason, hlines, Rfc7230.Response.encode,
    Rfc7230.Head.encode, List.append_assoc]
  rfl

/-- No text of the table has a byte that a reason phrase cannot have. -/
theorem isText_reason {code : Int} {reason : String} (h : reasonPhrase code = some reason) :
    (ascii reason).all Rfc7230.isText = true := by
  -- looked up in the whole table, which holds the phrases of all codes
  have htable : ∀ messages ∈ kStatusMessages, ∀ reason ∈ messages,
      (ascii reason).all Rfc7230.isText = true := by
    decide +kernel
  obtain ⟨messages, hmessages, hreason⟩ :=
    Option.bind_eq_some_iff.mp (Option.ite_none_left_eq_some.mp h).2
  exact htable messages (mem_of_vectorAt hmessages) reason (mem_of_vectorAt hreason)

theorem decimal_ne_nil (n : Nat) : decimal n ≠ [] := by
  rw [decimal, Nat.toDigits_eq_if (by decide)]
  split <;> simp

theorem all_isDigit_decimal (n : Nat) : (decimal n).all Rfc7230.isDigit = true :=
  List.all_eq_true.mpr fun _ hb => isDigit_of_mem_decimal hb

/-- A length that is sent is read. -/
theorem number_decimal (n : Nat) : Rfc7230.number (decimal n) = some n := by
  rw [Rfc7230.number, if_pos ⟨decimal_ne_nil n, all_isDigit_decimal n⟩]
  exact congrArg some (decimalValue_decimal n)

theorem fieldOk_length (n : Nat) : Rfc7230.FieldOk (ascii "Content-Length", decimal n) := by
  have hdigit : ∀ b ∈ decimal n, Rfc7230.isText b = true ∧ Rfc7230.isBlank b = false := by
    intro b hb
    have hb := List.all_eq_true.mp (all_isDigit_decimal n) b hb
    simp only [Rfc7230.isDigit, Bool.and_eq_true, decide_eq_true_eq, UInt8.le_iff_toNat_le,
      UInt8.reduceToNat] at hb
    simp only [Rfc7230.isText, Rfc7230.isBlank, Bool.or_eq_true, Bool.and_eq_true, beq_iff_eq,
      bne_iff_ne, decide_eq_true_eq, Bool.or_eq_false_iff, beq_eq_false_iff_ne,
      UInt8.le_iff_toNat_le, ne_eq, ← UInt8.toNat_inj, UInt8.reduceToNat]
    omega
  have hname : (ascii "Content-Length").all Rfc7230.isTchar = true := by decide
  exact .of_noBlank (by simp [ascii]) hname hdigit

theorem wellFormed : c.response.head.WellFormed := by
  obtain ⟨reason, hreason⟩ := exists_reasonPhrase c.statusCode
  obtain ⟨hle, hge⟩ := range_sentCode c.statusCode
  constructor
  · simp only [response]
    cases c.version <;> decide
  · simp only [response]
    omega
  · simp only [response, hreason, Option.getD_some]
    exact isText_reason hreason
  · intro e he
    rcases List.mem_append.mp he with he | he
    · -- the headers of the caller
      exact c.fieldsOk e he
    · -- the length that is added
      unfold lengthFields at he
      split at he
      · exact absurd he List.not_mem_nil
      · obtain rfl := List.mem_singleton.mp he
        exact fieldOk_length c.body.length

/-! ## Framing -/

theorem isVersion_iff : Rfc7230.isVersion c.response.head.version = true ↔ c.Versioned := by
  unfold Versioned
  simp only [response]
  cases c.version <;> decide

theorem bodyless_iff : c.response.head.Bodyless ↔ c.Bodyless := by
  obtain ⟨hle, hge⟩ := range_sentCode c.statusCode
  simp only [Rfc7230.Head.Bodyless, Bodyless, response]
  omega

/-- The lengths in the response: those of the caller, and that of the body. -/
theorem valuesOf_contentLength :
    c.response.head.valuesOf Rfc7230.Head.contentLength =
      c.lengths ++ if c.body = [] then [] else [decimal c.body.length] := by
  simp only [Rfc7230.Head.valuesOf, response, List.filter_append, List.map_append]
  congr 1
  unfold lengthFields
  split
  · rfl
  · have hname : (ascii "Content-Length").map Rfc7230.toLower = Rfc7230.Head.contentLength := by
      decide
    simp [hname]

theorem valuesOf_transferEncoding :
    c.response.head.valuesOf Rfc7230.Head.transferEncoding = [] ↔ c.Plain := by
  have hlength : (lengthFields c.body).filter (fun e =>
      e.1.map Rfc7230.toLower = Rfc7230.Head.transferEncoding) = [] := by
    have hname : (ascii "Content-Length").map Rfc7230.toLower ≠
        Rfc7230.Head.transferEncoding := by
      decide
    unfold lengthFields
    split <;> simp [hname]
  simp only [Rfc7230.Head.valuesOf, response, List.filter_append, hlength, List.append_nil,
    List.map_eq_nil_iff, List.filter_eq_nil_iff, decide_eq_true_eq]
  rfl

/-- What the head tells, by what the caller gives. -/
theorem framing_eq :
    c.response.head.framing =
      if c.response.head.Bodyless then some .empty
      else if c.response.head.valuesOf Rfc7230.Head.transferEncoding ≠ [] then none
      else Rfc7230.lengthFraming
        (c.lengths ++ if c.body = [] then [] else [decimal c.body.length]) := by
  rw [Rfc7230.Head.framing, valuesOf_contentLength]

theorem delimited_iff : c.response.Delimited ↔ c.Delimited := by
  unfold Rfc7230.Response.Delimited Delimited
  rw [isVersion_iff, framing_eq]
  apply and_congr_right
  intro _
  by_cases hbodyless : c.Bodyless
  · -- the client takes such a response to have no body, whatever the headers say
    rw [if_pos (c.bodyless_iff.mpr hbodyless)]
    have hbody : c.response.body = c.body := rfl
    simp [hbodyless, hbody]
  rw [if_neg (mt c.bodyless_iff.mp hbodyless)]
  by_cases hplain : c.Plain
  · -- the lengths decide, and an empty body gets none from `MakeResponse`
    rw [if_neg (not_not.mpr (c.valuesOf_transferEncoding.mpr hplain))]
    simp only [hbodyless, hplain, Rfc7230.lengthFraming_eq_length_iff,
      Rfc7230.lengthFraming_ne_empty, false_and, false_or, not_false_eq_true, true_and]
    show _ ∧ (∀ value ∈ _, Rfc7230.number value = some c.body.length) ↔ _
    by_cases hbody : c.body = []
    · simp [hbody]
    · simp only [if_neg hbody]
      simp [number_decimal, hbody, or_imp, forall_and]
  · rw [if_pos (mt c.valuesOf_transferEncoding.mp hplain)]
    simp [hbodyless, hplain]

theorem untilClose_iff : c.response.UntilClose ↔ c.UntilClose := by
  unfold Rfc7230.Response.UntilClose UntilClose
  rw [isVersion_iff, framing_eq]
  apply and_congr_right
  intro _
  by_cases hbodyless : c.Bodyless
  · simp [if_pos (c.bodyless_iff.mpr hbodyless), hbodyless]
  rw [if_neg (mt c.bodyless_iff.mp hbodyless)]
  by_cases hplain : c.Plain
  -- no transfer coding, so the length decides
  · rw [if_neg (not_not.mpr (c.valuesOf_transferEncoding.mpr hplain)),
      Rfc7230.lengthFraming_eq_untilClose_iff]
    by_cases hbody : c.body = []
    · simp [hbodyless, hplain, hbody]
    · simp [hbodyless, hplain, hbody]
  · rw [if_pos (mt c.valuesOf_transferEncoding.mp hplain)]
    simp [hbodyless, hplain]

end ResponseCall

/-- **A stream of responses.** `MakeResponse` always writes a response. A client that reads
    several of them off one connection gets exactly the responses that were made if and only if
    each tells where its body ends, the last one perhaps by the close of the connection. A
    response with code 200 and a body does, as `MakeResponse` writes its length; one with an empty
    body does not, unless the caller gives a length. -/
theorem makeResponse_stream (calls : List ResponseCall) :
    ∃ outs, calls.mapM ResponseCall.make = some outs ∧
      (Rfc7230.Reads outs.flatten (calls.map ResponseCall.response) ↔
        (∀ c ∈ calls.dropLast, c.Delimited) ∧
          ∀ c ∈ calls.getLast?, c.Delimited ∨ c.UntilClose) := by
  refine ⟨calls.map fun c => c.response.encode, ?_, ?_⟩
  · rw [funext ResponseCall.make_eq]
    exact List.mapM_pure
  · have hstream : (calls.map fun c => c.response.encode).flatten =
        (calls.map ResponseCall.response).flatMap Rfc7230.Response.encode := by
      rw [List.flatMap_map, List.flatMap_def]
    have hwf : ∀ r ∈ calls.map ResponseCall.response, r.head.WellFormed :=
      List.forall_mem_map.mpr fun c _ => c.wellFormed
    -- only the last response may run up to the close
    rw [hstream, Rfc7230.reads_iff hwf, ← List.map_dropLast, List.getLast?_map]
    simp only [List.forall_mem_map, ResponseCall.delimited_iff]
    cases calls.getLast? with
    | none => simp
    | some c => simp [ResponseCall.delimited_iff, ResponseCall.untilClose_iff]

/-- A response with a body, whose length `MakeResponse` writes. -/
private def hiResponse : ResponseCall := ⟨200, .HTTP_1_1, .empty, ascii "hi", by decide⟩

/-- One without a body, and without a length. -/
private def emptyResponse : ResponseCall := ⟨200, .HTTP_1_1, .empty, [], by decide⟩

/-- A client reads the two responses off one connection, in this order, and not in the other: it
    takes the one with a body for the body of the other one. -/
theorem makeResponse_stream_two :
    (∃ outs, [hiResponse, emptyResponse].mapM ResponseCall.make = some outs ∧
      outs.flatten = ascii "HTTP/1.1 200 OK" ++ crlf ++ ascii "Content-Length: 2" ++ crlf ++ crlf ++
        ascii "hi" ++ ascii "HTTP/1.1 200 OK" ++ crlf ++ crlf ∧
      Rfc7230.Reads outs.flatten [hiResponse.response, emptyResponse.response]) ∧
    ∃ outs, [emptyResponse, hiResponse].mapM ResponseCall.make = some outs ∧
      ¬ Rfc7230.Reads outs.flatten [emptyResponse.response, hiResponse.response] := by
  obtain ⟨outs, hmake, hreads⟩ := makeResponse_stream [hiResponse, emptyResponse]
  obtain ⟨outs', hmake', hreads'⟩ := makeResponse_stream [emptyResponse, hiResponse]
  have hbytes : ([hiResponse, emptyResponse].mapM ResponseCall.make).map List.flatten =
      some (ascii "HTTP/1.1 200 OK" ++ crlf ++ ascii "Content-Length: 2" ++ crlf ++ crlf ++
        ascii "hi" ++ ascii "HTTP/1.1 200 OK" ++ crlf ++ crlf) := by
    decide +kernel
  rw [hmake] at hbytes
  exact ⟨⟨outs, hmake, Option.some.inj hbytes, hreads.mpr (by decide +kernel)⟩,
    outs', hmake', mt hreads'.mp (by decide +kernel)⟩

end Httpoll.Native
