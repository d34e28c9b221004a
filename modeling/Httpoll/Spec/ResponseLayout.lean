import Httpoll.ForStd.Lines
import Httpoll.Native.Response

/-!
# What a response is made of

`MakeResponse` writes a status line, the headers and the body. Whatever the status code and
the body are, a reader that cuts the response at its CR LFs finds these parts again.

## Key results

- `makeResponse_layout`: a response read back, up to the first empty line and behind it
-/

namespace Httpoll.Native

/-! ## The table -/

/-- The reason that `kStatusMessages` has for a code. -/
def reasonPhrase (code : Int) : Option String :=
  if code < 100 then none
  else do
    let messages ← vectorAt kStatusMessages (code / 100 - 1)
    vectorAt messages (code % 100)

/-- The code that is sent: 500 for one that is not in the table. -/
def sentCode (code : Int) : Int := if (reasonPhrase code).isSome then code else 500

theorem vectorAt_eq_some {α : Type _} {xs : List α} {i : Int} {x : α} :
    vectorAt xs i = some x ↔ 0 ≤ i ∧ xs[i.toNat]? = some x := by
  unfold vectorAt
  split
  · simp only [reduceCtorEq, false_iff, not_and]
    omega
  · rename_i h
    exact ⟨fun hx => ⟨Int.not_lt.mp h, hx⟩, fun hx => hx.2⟩

theorem mem_of_vectorAt {α : Type _} {xs : List α} {i : Int} {x : α}
    (h : vectorAt xs i = some x) : x ∈ xs :=
  List.mem_of_getElem? (vectorAt_eq_some.mp h).2

/-- `at` does not throw exactly for an index of the vector. -/
theorem exists_vectorAt_iff {α : Type _} {xs : List α} {i : Int} :
    (∃ x, vectorAt xs i = some x) ↔ 0 ≤ i ∧ i < xs.length := by
  simp only [vectorAt_eq_some, exists_and_left]
  constructor
  · rintro ⟨hi, x, hx⟩
    obtain ⟨hlt, -⟩ := List.getElem?_eq_some_iff.mp hx
    exact ⟨hi, by omega⟩
  · rintro ⟨hi, hlt⟩
    have hlt' : i.toNat < xs.length := by omega
    exact ⟨hi, _, List.getElem?_eq_getElem hlt'⟩

/-- The messages of a code between 100 and 599. -/
theorem exists_messages {code : Int} (hle : 100 ≤ code) (hge : code ≤ 599) :
    ∃ messages, vectorAt kStatusMessages (code / 100 - 1) = some messages := by
  refine exists_vectorAt_iff.mpr ⟨by omega, ?_⟩
  show code / 100 - 1 < 5
  omega

theorem reasonPhrase_of_messages {code : Int} (h : 100 ≤ code) {messages : List String}
    (hmessages : vectorAt kStatusMessages (code / 100 - 1) = some messages) :
    reasonPhrase code = vectorAt messages (code % 100) := by
  rw [reasonPhrase, if_neg (by omega), hmessages]
  rfl

/-- A code of the table. -/
theorem range_of_reasonPhrase {code : Int} (h : (reasonPhrase code).isSome) :
    100 ≤ code ∧ code ≤ 599 := by
  unfold reasonPhrase at h
  split at h
  · cases h
  · obtain ⟨reason, hreason⟩ := Option.isSome_iff_exists.mp h
    obtain ⟨messages, hmessages, -⟩ := Option.bind_eq_some_iff.mp hreason
    have hlt : code / 100 - 1 < 5 := (exists_vectorAt_iff.mp ⟨messages, hmessages⟩).2
    omega

example : reasonPhrase 404 = some "Not Found" ∧ reasonPhrase 413 = none ∧
    reasonPhrase (-1) = none := by decide

theorem reasonPhrase_500 : reasonPhrase 500 = some "Internal Server Error" := by decide

theorem sentCode_of_messages {code : Int} (h : 100 ≤ code) {messages : List String}
    (hmessages : vectorAt kStatusMessages (code / 100 - 1) = some messages) :
    sentCode code = if messages.length ≤ code % 100 then 500 else code := by
  have hsome : (vectorAt messages (code % 100)).isSome ↔ code % 100 < messages.length := by
    rw [Option.isSome_iff_exists, exists_vectorAt_iff]
    omega
  rw [sentCode, reasonPhrase_of_messages h hmessages]
  by_cases hlt : code % 100 < messages.length
  · rw [if_pos (hsome.mpr hlt), if_neg (by omega)]
  · rw [if_neg (mt hsome.mp hlt), if_pos (by omega)]

theorem sentCode_of_out {code : Int} (h : code < 100 ∨ code > 599) : sentCode code = 500 := by
  rw [sentCode, if_neg]
  intro hsome
  have hrange := range_of_reasonPhrase hsome
  omega

theorem exists_reasonPhrase (code : Int) :
    ∃ reason, reasonPhrase (sentCode code) = some reason := by
  unfold sentCode
  split
  · rename_i h
    exact Option.isSome_iff_exists.mp h
  · exact ⟨_, reasonPhrase_500⟩

/-- The code after the first check is between 100 and 599. -/
theorem exists_checkedCode (statusCode : Int) :
    ∃ code : Int, 100 ≤ code ∧ code ≤ 599 ∧
      (if statusCode < 100 ∨ statusCode > 599 then 500 else statusCode) = code ∧
      sentCode statusCode = sentCode code := by
  by_cases hout : statusCode < 100 ∨ statusCode > 599
  · exact ⟨500, by decide, by decide, if_pos hout, sentCode_of_out hout⟩
  · exact ⟨statusCode, by omega, by omega, if_neg hout, rfl⟩

/-! ## The lines -/

/-- The line for a code and its reason. -/
def statusLine (version : HttpVersion) (code : Int) (reason : String) : Bytes :=
  httpVersionToString version ++ [SP] ++ formatInt code ++ [SP] ++ ascii reason

/-- The line of a header. -/
def headerLine (e : Bytes × Bytes) : Bytes := e.1 ++ ascii ": " ++ e.2

/-- The line that tells the size of the body, when there is one. -/
def lengthLines (body : Bytes) : List Bytes :=
  if body = [] then [] else [ascii "Content-Length: " ++ decimal body.length]

/-- The lines before the empty one. -/
def responseLines (version : HttpVersion) (code : Int) (reason : String) (headers : ResponseHeaders)
    (body : Bytes) : List Bytes :=
  statusLine version code reason :: (headers.entries.map headerLine ++ lengthLines body)

theorem flatMap_responseLines (version : HttpVersion) (code : Int) (reason : String)
    (headers : ResponseHeaders) (body : Bytes) :
    (responseLines version code reason headers body).flatMap (· ++ crlf) =
      statusLine version code reason ++ crlf ++
        (headers.entries.map fun e => e.1 ++ ascii ": " ++ e.2 ++ crlf).flatten ++
        (lengthLines body).flatMap (· ++ crlf) := by
  rw [responseLines, List.flatMap_cons, List.flatMap_append, List.flatMap_map, List.flatMap_def,
    ← List.append_assoc]
  rfl

/-- What `MakeResponse` writes, for the code that it settles on. -/
theorem makeResponse_eq (statusCode : Int) (version : HttpVersion) (headers : ResponseHeaders)
    (body : Bytes) {reason : String} (hreason : reasonPhrase (sentCode statusCode) = some reason) :
    makeResponse statusCode version headers body =
      some ((responseLines version (sentCode statusCode) reason headers body).flatMap (· ++ crlf) ++
        CR :: LF :: body) := by
  obtain ⟨code, hle, hge, hfirst, hsent⟩ := exists_checkedCode statusCode
  -- the code after the second check is sent
  obtain ⟨messages, hmessages⟩ := exists_messages hle hge
  have hsecond := sentCode_of_messages hle hmessages
  rw [hsent] at hreason ⊢
  obtain ⟨hle', hge'⟩ := range_of_reasonPhrase (Option.isSome_iff_exists.mpr ⟨_, hreason⟩)
  obtain ⟨messages', hmessages'⟩ := exists_messages hle' hge'
  rw [reasonPhrase_of_messages hle' hmessages'] at hreason
  have hdiv : ∀ i : Int, 100 ≤ i → i.tdiv 100 = i / 100 ∧ i.tmod 100 = i % 100 := fun i hi =>
    ⟨Int.tdiv_eq_ediv_of_nonneg (by omega), Int.tmod_eq_emod_of_nonneg (by omega)⟩
  simp only [makeResponse, hfirst, hdiv code hle, hmessages, Option.bind_eq_bind,
    Option.bind_some, ← hsecond, hdiv _ hle', hmessages', hreason]
  rw [List.foldl_append_eq_append, flatMap_responseLines]
  by_cases hbody : body = []
  · rw [if_neg (not_not.mpr hbody), lengthLines, if_pos hbody, hbody]
    simp only [List.flatMap_nil, List.append_nil]
    rfl
  · rw [if_pos hbody, lengthLines, if_neg hbody]
    simp only [statusLine, List.flatMap_cons, List.flatMap_nil, List.append_nil,
      List.append_assoc]
    rfl

/-! ## Reading it back -/

theorem CR_not_mem_formatInt (i : Int) : CR ∉ formatInt i :=
  not_mem_formatInt (by decide) (by decide) i

/-- No text of the table has a CR. -/
theorem CR_not_mem_reason {code : Int} {reason : String} (h : reasonPhrase code = some reason) :
    CR ∉ ascii reason := by
  have htable : ∀ messages ∈ kStatusMessages, ∀ reason ∈ messages, CR ∉ ascii reason := by
    decide +kernel
  unfold reasonPhrase at h
  split at h
  · cases h
  · obtain ⟨messages, hmessages, hreason⟩ := Option.bind_eq_some_iff.mp h
    exact htable messages (mem_of_vectorAt hmessages) reason (mem_of_vectorAt hreason)

theorem CR_not_mem_statusLine (version : HttpVersion) {code : Int} {reason : String}
    (h : reasonPhrase code = some reason) : CR ∉ statusLine version code reason := by
  have hversion : CR ∉ httpVersionToString version := by cases version <;> decide
  have hspace : CR ∉ [SP] := by decide
  simp only [statusLine, List.mem_append, not_or]
  exact ⟨⟨⟨⟨hversion, hspace⟩, CR_not_mem_formatInt code⟩, hspace⟩, CR_not_mem_reason h⟩

/-- Every line is one that ends at its own CR LF. -/
theorem mem_responseLines {version : HttpVersion} {code : Int} {reason : String}
    {headers : ResponseHeaders} {body : Bytes} (hreason : reasonPhrase code = some reason)
    (hheaders : ∀ e ∈ headers.entries, CR ∉ e.1 ∧ CR ∉ e.2) {t : Bytes}
    (ht : t ∈ responseLines version code reason headers body) : t ≠ [] ∧ CR ∉ t := by
  rcases List.mem_cons.mp ht with rfl | ht
  · exact ⟨by simp [statusLine], CR_not_mem_statusLine version hreason⟩
  · rcases List.mem_append.mp ht with ht | ht
    -- a line of the caller's headers
    · obtain ⟨e, he, rfl⟩ := List.mem_map.mp ht
      obtain ⟨hname, hvalue⟩ := hheaders e he
      refine ⟨by simp [headerLine, ascii], ?_⟩
      have hcolon : CR ∉ ascii ": " := by decide
      simp only [headerLine, List.mem_append, not_or]
      exact ⟨⟨hname, hcolon⟩, hvalue⟩
    -- the line that the function adds
    · unfold lengthLines at ht
      split at ht
      · exact absurd ht List.not_mem_nil
      · rw [List.mem_singleton.mp ht]
        refine ⟨by simp [ascii], ?_⟩
        have htext : CR ∉ ascii "Content-Length: " := by decide
        rw [List.mem_append, not_or]
        exact ⟨htext, CR_not_mem_formatInt (.ofNat body.length)⟩

/-- **The layout of a response.** `MakeResponse` never reads outside of `kStatusMessages`. Cut
    at its CR LFs, up to the first empty line, the response is the status line, one line for
    each header in the order of the map, and the line with the size of the body when it has
    one; what comes after the empty line is the body. The headers are free of CRs; the body
    may be anything. -/
theorem makeResponse_layout (statusCode : Int) (version : HttpVersion)
    {headers : ResponseHeaders} (hheaders : ∀ e ∈ headers.entries, CR ∉ e.1 ∧ CR ∉ e.2)
    (body : Bytes) :
    ∃ response reason, makeResponse statusCode version headers body = some response ∧
      reasonPhrase (sentCode statusCode) = some reason ∧
      Lines.block CR LF response =
        some
          ((httpVersionToString version ++ [SP] ++ formatInt (sentCode statusCode) ++ [SP] ++
              ascii reason) ::
            (headers.entries.map (fun e => e.1 ++ ascii ": " ++ e.2) ++
              if body = [] then [] else [ascii "Content-Length: " ++ decimal body.length]),
            body) := by
  obtain ⟨reason, hreason⟩ := exists_reasonPhrase statusCode
  refine ⟨_, reason, makeResponse_eq statusCode version headers body hreason, hreason, ?_⟩
  exact Lines.block_append (fun t ht => mem_responseLines hreason hheaders ht) body

/-- A body that looks like the end of the headers. -/
theorem makeResponse_layout_body :
    let headers : ResponseHeaders := ⟨[(ascii "Server", ascii "a: b")], by decide⟩
    ∃ response, makeResponse 404 .HTTP_1_1 headers (crlf ++ crlf ++ ascii "x") = some response ∧
      Lines.block CR LF response =
        some ([ascii "HTTP/1.1 404 Not Found", ascii "Server: a: b", ascii "Content-Length: 5"],
          crlf ++ crlf ++ ascii "x") := by
  intro headers
  have hheaders : ∀ e ∈ headers.entries, CR ∉ e.1 ∧ CR ∉ e.2 := by decide
  obtain ⟨response, reason, hresponse, hreason, hblock⟩ :=
    makeResponse_layout 404 .HTTP_1_1 hheaders (crlf ++ crlf ++ ascii "x")
  obtain rfl : "Not Found" = reason := Option.some.inj hreason
  exact ⟨response, hresponse, hblock.trans (by decide)⟩

end Httpoll.Native
