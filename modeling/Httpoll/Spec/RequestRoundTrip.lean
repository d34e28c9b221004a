import Httpoll.Spec.HeaderBlock
import Httpoll.Spec.Requests

/-!
# A request without a body reads back

The lines of a request whose method and version the parser knows, whose header names are
plain and whose values do not begin with a blank leave in the parser what was sent: each
line goes to the branch of its own header, and every slice of it ends where it should.

## Key results

- `parseHttpVersion_text`: the version at the end of a request line
- `HeaderField.headerKind_line`: a header line goes to the branch of its name
- `HeaderField.pushLine_line`: what one header line does to the parser
- `PlainRequest.roundTrip`: the parser after all lines of a request
-/

namespace Httpoll.Native

open HttpHeaderParser

/-! ## The version -/

/-- The versions that the parser knows. -/
def HttpVersion.Recognised (v : HttpVersion) : Prop :=
  v = .HTTP_1_0 ∨ v = .HTTP_1_1 ∨ v = .HTTP_2_0

theorem parseHttpVersion_text {v : HttpVersion} (hv : v.Recognised) (pre : Bytes) :
    parseHttpVersion (pre ++ (httpVersionToString v ++ crlf)) pre.length = v := by
  rw [parseHttpVersion_append]
  rcases hv with rfl | rfl | rfl <;> decide

/-! ## Header lines -/

/-- A header as a client sends it. -/
structure HeaderField where
  name : Bytes
  value : Bytes
  name_ne_nil : name ≠ []
  name_text : SP ∉ name ∧ COLON ∉ name ∧ CR ∉ name ∧ LF ∉ name ∧ 0 ∉ name
  value_text : CR ∉ value ∧ LF ∉ value ∧ 0 ∉ value
  value_head : value.head? ≠ some SP

namespace HeaderField

/-- `Name: value` CRLF -/
def line (f : HeaderField) : Bytes := f.name ++ COLON :: SP :: (f.value ++ crlf)

/-- The same line with `k` blanks between the colon and the value. -/
def lineWith (f : HeaderField) (k : Nat) : Bytes :=
  f.name ++ COLON :: (List.replicate k SP ++ (f.value ++ crlf))

theorem lineWith_one (f : HeaderField) : f.lineWith 1 = f.line := rfl

/-- The header has this name (in lower case), letter case aside. -/
def Is (f : HeaderField) (name : Bytes) : Prop := f.name.map tolower = name

instance (f : HeaderField) (name : Bytes) : Decidable (f.Is name) :=
  inferInstanceAs (Decidable (_ = name))

/-- A character other than the blank is in the line when it is in one of its parts. -/
private theorem not_mem_blanks {c : UInt8} (hc : c ≠ SP) (k : Nat) : c ∉ List.replicate k SP :=
  fun h => hc (List.eq_of_mem_replicate h)

theorem isLine (f : HeaderField) (k : Nat) : Lines.IsLine CR LF (f.lineWith k) := by
  have heq : f.lineWith k = (f.name ++ COLON :: (List.replicate k SP ++ f.value)) ++ [CR, LF] := by
    simp [lineWith, crlf]
  rw [heq]
  apply Lines.IsLine.of_not_mem
  simp only [List.mem_append, List.mem_cons, not_or]
  exact ⟨f.name_text.2.2.1, by decide, not_mem_blanks (by decide) k, f.value_text.1⟩

theorem zero_not_mem (f : HeaderField) (k : Nat) : 0 ∉ f.lineWith k := by
  simp only [lineWith, crlf, List.mem_append, List.mem_cons, not_or]
  exact ⟨f.name_text.2.2.2.2, by decide, not_mem_blanks (by decide) k, f.value_text.2.2,
    by decide, by decide, List.not_mem_nil⟩

theorem ne_crlf (f : HeaderField) (k : Nat) : f.lineWith k ≠ crlf := by
  intro h
  obtain ⟨c, cs, hname⟩ := List.exists_cons_of_ne_nil f.name_ne_nil
  have hhead : c = CR := by
    rw [lineWith, hname] at h
    exact (List.cons.inj h).1
  exact f.name_text.2.2.1 (by rw [hname, hhead]; exact List.mem_cons_self)

theorem exists_cons (f : HeaderField) : ∃ c cs, f.name = c :: cs ∧ c ≠ SP := by
  obtain ⟨c, cs, hname⟩ := List.exists_cons_of_ne_nil f.name_ne_nil
  refine ⟨c, cs, hname, ?_⟩
  rintro rfl
  exact f.name_text.1 (by rw [hname]; exact List.mem_cons_self)

/-- No blanks come before the name. -/
theorem nextChar_line (f : HeaderField) (k : Nat) : nextChar (f.lineWith k) 0 (· != SP) = 0 := by
  obtain ⟨c, cs, hname, hc⟩ := f.exists_cons
  rw [lineWith, hname]
  exact nextChar_append [] [] _ (by simp) (by simpa using hc)

theorem dropWhile_line (f : HeaderField) (k : Nat) :
    (f.lineWith k).dropWhile (· == SP) = f.lineWith k := by
  obtain ⟨c, cs, hname, hc⟩ := f.exists_cons
  rw [lineWith, hname, List.cons_append, List.dropWhile_cons_of_neg (by simp [hc])]

/-- The name ends at the first colon. -/
theorem nextChar_colon (f : HeaderField) (k : Nat) :
    nextChar (f.lineWith k) 0 (· == COLON) = f.name.length := by
  have hname : ∀ c ∈ f.name, (c == COLON) = false := by
    intro c hc
    have hne : c ≠ COLON := fun h => f.name_text.2.1 (h ▸ hc)
    simpa using hne
  have h := nextChar_append [] f.name (List.replicate k SP ++ (f.value ++ crlf)) hname
    (show (COLON == COLON) = true from by decide)
  simpa [lineWith] using h

/-- What comes after the colon. -/
theorem drop_colon (f : HeaderField) (k : Nat) :
    (f.lineWith k).drop (f.name.length + 1) = List.replicate k SP ++ (f.value ++ crlf) := by
  rw [lineWith, ← List.drop_drop, List.drop_left, List.drop_one, List.tail_cons]

/-- An empty value is followed by the line end, which is no blank either. -/
theorem exists_cons_value (f : HeaderField) : ∃ c cs, f.value ++ crlf = c :: cs ∧ c ≠ SP := by
  cases hv : f.value with
  | nil => exact ⟨CR, [LF], rfl, by decide⟩
  | cons c cs =>
    refine ⟨c, cs ++ crlf, rfl, ?_⟩
    rintro rfl
    exact f.value_head (by rw [hv]; rfl)

/-- The blanks before the value are skipped. -/
theorem nextChar_value (f : HeaderField) (k : Nat) :
    nextChar (f.lineWith k) (f.name.length + 1) (· != SP) = f.name.length + 1 + k := by
  have hline : f.lineWith k =
      (f.name ++ [COLON]) ++ (List.replicate k SP ++ (f.value ++ crlf)) := by simp [lineWith]
  have hlen : f.name.length + 1 = (f.name ++ [COLON]).length := by simp
  obtain ⟨c, cs, hcs, hc⟩ := f.exists_cons_value
  rw [hline, hcs, hlen, nextChar_append _ _ _ (by simp) (by simpa using hc), List.length_replicate]

/-- The value after the colon, without the blanks before it and the line end after it. -/
theorem headerValue_line (f : HeaderField) (k : Nat) :
    headerValue (f.lineWith k) (f.name.length + 1) = f.value := by
  have hstart := f.nextChar_value k
  have hend : nextChar (f.lineWith k) (f.name.length + 1 + k) (fun c => c == CR || c == LF) =
      f.name.length + 1 + k + f.value.length := by
    have hline : f.lineWith k =
        (f.name ++ COLON :: List.replicate k SP) ++ (f.value ++ CR :: [LF]) := by
      simp [lineWith, crlf]
    have hlen : f.name.length + 1 + k = (f.name ++ COLON :: List.replicate k SP).length := by
      simp only [List.length_append, List.length_cons, List.length_replicate]
      omega
    rw [hline, hlen]
    -- neither CR nor LF is in the value, so it ends where the line ends
    apply nextChar_append
    · intro c hc
      have hcr : c ≠ CR := fun h => f.value_text.1 (h ▸ hc)
      have hlf : c ≠ LF := fun h => f.value_text.2.1 (h ▸ hc)
      simp [hcr, hlf]
    · decide
  have hdrop : (f.lineWith k).drop (f.name.length + 1 + k) = f.value ++ crlf := by
    rw [← List.drop_drop, f.drop_colon, List.drop_left' List.length_replicate]
  simp only [headerValue, hstart, hend, hdrop, Nat.add_sub_cancel_left, List.take_left]

/-- The parser compares complete names, up to the colon. -/
theorem named_iff (f : HeaderField) (k : Nat) {name : Bytes} (hcolon : COLON ∉ name) :
    Named (name ++ [COLON]) (f.lineWith k) ↔ f.Is name := by
  generalize hrest : (List.replicate k SP ++ (f.value ++ crlf)).map tolower = rest
  have hlower : (f.lineWith k).map tolower = f.name.map tolower ++ COLON :: rest := by
    rw [← hrest, lineWith, List.map_append, List.map_cons]
    rfl
  -- no other character becomes a colon in lower case
  have hfirst : COLON ∉ f.name.map tolower := by
    intro h
    obtain ⟨c, hc, hlow⟩ := List.mem_map.mp h
    obtain rfl := eq_of_tolower_eq (by decide) hlow
    exact f.name_text.2.1 hc
  have hbefore : ∀ {n rest : Bytes}, COLON ∉ n →
      (n ++ COLON :: rest).takeWhile (· != COLON) = n := by
    intro n rest hn
    rw [List.takeWhile_append_of_pos, List.takeWhile_cons_of_neg (by simp), List.append_nil]
    intro c hc
    have hne : c ≠ COLON := fun h => hn (h ▸ hc)
    simpa using hne
  unfold Named Is
  rw [f.dropWhile_line, List.map_take, hlower]
  constructor
  · intro h
    -- both names are what comes before the first colon
    have hsplit := List.take_append_drop (name ++ [COLON]).length
      (f.name.map tolower ++ COLON :: rest)
    rw [h, List.append_assoc, List.singleton_append] at hsplit
    rw [← hbefore hfirst, ← hsplit, hbefore hcolon]
  · intro h
    have hsplit : name ++ COLON :: rest = (name ++ [COLON]) ++ rest := by simp
    rw [h, hsplit]
    exact List.take_left

/-- A header line goes to the branch of its name. -/
theorem headerKind_line (f : HeaderField) (k : Nat) :
    headerKind (f.lineWith k) =
      if f.Is (ascii "content-length") then .contentLength
      else if f.Is (ascii "upgrade") then .upgrade
      else if f.Is (ascii "host") then .host
      else if f.Is (ascii "connection") then .connection
      else if f.Is (ascii "user-agent") then .userAgent
      else .other := by
  rw [headerKind_eq (f.isLine k) (f.zero_not_mem k),
    show kContentLength = ascii "content-length" ++ [COLON] from by decide,
    show kUpgrade = ascii "upgrade" ++ [COLON] from by decide,
    show kHost = ascii "host" ++ [COLON] from by decide,
    show kConnection = ascii "connection" ++ [COLON] from by decide,
    show kUserAgent = ascii "user-agent" ++ [COLON] from by decide]
  simp only [f.named_iff k (show COLON ∉ ascii "content-length" from by decide),
    f.named_iff k (show COLON ∉ ascii "upgrade" from by decide),
    f.named_iff k (show COLON ∉ ascii "host" from by decide),
    f.named_iff k (show COLON ∉ ascii "connection" from by decide),
    f.named_iff k (show COLON ∉ ascii "user-agent" from by decide)]

/-- The header has no meaning for the length of the body or for the connection. -/
def Plain (f : HeaderField) : Prop :=
  ¬ f.Is (ascii "content-length") ∧ ¬ f.Is (ascii "upgrade") ∧ ¬ f.Is (ascii "connection")

/-- The header is none of those that the parser keeps in a field of its own. -/
def Other (f : HeaderField) : Prop := ¬ f.Is (ascii "host") ∧ ¬ f.Is (ascii "user-agent")

instance : DecidablePred Other := fun f =>
  inferInstanceAs (Decidable (¬ f.Is (ascii "host") ∧ ¬ f.Is (ascii "user-agent")))

/-- What a plain header adds to the parser. -/
def addTo (p : HttpHeaderParser) (f : HeaderField) : HttpHeaderParser :=
  if f.Is (ascii "host") then { p with host := f.value }
  else if f.Is (ascii "user-agent") then { p with userAgent := f.value }
  else { p with headers := p.headers.emplace f.name f.value }

/-- The value of a header with this name begins behind the name and its colon. -/
theorem Is.length_eq {f : HeaderField} {name key : Bytes} (h : f.Is name)
    (hkey : name.length + 1 = key.length) : f.name.length + 1 = 0 + key.length := by
  rw [Nat.zero_add, ← hkey, ← show _ = name from h, List.length_map]

/-- `PushLine` on the line of a plain header. -/
theorem pushLine_line {f : HeaderField} (hf : f.Plain) {p : HttpHeaderParser}
    (hp : p.state = .Headers) (k : Nat) : p.pushLine (f.lineWith k) = some (f.addTo p) := by
  obtain ⟨hlength, hupgrade, hconnection⟩ := hf
  have hvalue := f.headerValue_line k
  rw [pushLine_header hp (f.ne_crlf k)]
  unfold pushHeader addTo
  rw [f.nextChar_line, f.headerKind_line, if_neg hlength, if_neg hupgrade]
  by_cases hhost : f.Is (ascii "host")
  · have hlen : f.name.length + 1 = 0 + kHost.length := hhost.length_eq (by decide)
    rw [if_pos hhost, if_pos hhost]
    dsimp only [pushHost]
    rw [← hlen, hvalue]
  rw [if_neg hhost, if_neg hconnection, if_neg hhost]
  by_cases hagent : f.Is (ascii "user-agent")
  · have hlen : f.name.length + 1 = 0 + kUserAgent.length := hagent.length_eq (by decide)
    rw [if_pos hagent, if_pos hagent]
    dsimp only [pushUserAgent]
    rw [← hlen, hvalue]
  · -- any other header goes into the map under the name as it was sent
    have hname : (f.lineWith k).take f.name.length = f.name := by
      rw [lineWith]
      exact List.take_left
    have hne : f.name.length ≠ (f.lineWith k).length := by
      simp only [lineWith, List.length_append, List.length_cons]
      omega
    rw [if_neg hagent, if_neg hagent]
    simp only [pushOther, f.nextChar_colon, hne, if_false, hname, hvalue]

end HeaderField

/-! ## Lists of headers -/

/-- The values of the headers with this name. -/
def valuesOf (name : Bytes) (fields : List HeaderField) : List Bytes :=
  (fields.filter fun f => f.Is name).map HeaderField.value

/-- The names and values of the headers that the parser keeps in its map. -/
def otherFields (fields : List HeaderField) : List (Bytes × Bytes) :=
  (fields.filter fun f => f.Other).map fun f => (f.name, f.value)

/-- The header lines of a request, one after the other. -/
theorem foldlM_fields {fields : List HeaderField} (hplain : ∀ f ∈ fields, f.Plain)
    {p : HttpHeaderParser} (hp : p.state = .Headers) :
    (fields.map HeaderField.line).foldlM pushLine p = some (fields.foldl HeaderField.addTo p) := by
  induction fields generalizing p with
  | nil => rfl
  | cons f fields ih =>
    have hstate : (f.addTo p).state = .Headers := by
      rw [← hp]
      unfold HeaderField.addTo
      split
      · rfl
      · split <;> rfl
    -- a field with one blank is the line as it is sent
    have hpush := HeaderField.pushLine_line (hplain f List.mem_cons_self) hp 1
    rw [HeaderField.lineWith_one] at hpush
    have hrest := ih (fun g hg => hplain g (List.mem_cons_of_mem f hg)) hstate
    exact Runs.foldlM_cons_eq_some.mpr ⟨_, hpush, hrest⟩

/-- What plain headers leave alone. -/
theorem foldl_addTo_frame (fields : List HeaderField) (p : HttpHeaderParser) :
    fields.foldl HeaderField.addTo p =
      { p with
        host := (fields.foldl HeaderField.addTo p).host
        userAgent := (fields.foldl HeaderField.addTo p).userAgent
        headers := (fields.foldl HeaderField.addTo p).headers } := by
  induction fields generalizing p with
  | nil => rfl
  | cons f fields ih =>
    rw [List.foldl_cons, ih]
    unfold HeaderField.addTo
    split
    · rfl
    · split <;> rfl

/-- The host is the value of the last Host header. -/
theorem foldl_addTo_host (fields : List HeaderField) (p : HttpHeaderParser) :
    (fields.foldl HeaderField.addTo p).host = (valuesOf (ascii "host") fields).getLastD p.host := by
  induction fields generalizing p with
  | nil => rfl
  | cons f fields ih =>
    rw [List.foldl_cons, ih]
    unfold valuesOf HeaderField.addTo
    by_cases hhost : f.Is (ascii "host")
    · rw [if_pos hhost, List.filter_cons_of_pos (by simpa using hhost), List.map_cons,
        List.getLastD_cons]
    · rw [if_neg hhost, List.filter_cons_of_neg (by simpa using hhost)]
      split <;> rfl

theorem foldl_addTo_userAgent (fields : List HeaderField) (p : HttpHeaderParser) :
    (fields.foldl HeaderField.addTo p).userAgent =
      (valuesOf (ascii "user-agent") fields).getLastD p.userAgent := by
  induction fields generalizing p with
  | nil => rfl
  | cons f fields ih =>
    rw [List.foldl_cons, ih]
    unfold valuesOf HeaderField.addTo
    by_cases hagent : f.Is (ascii "user-agent")
    · -- a header has one name only
      have hhost : ¬ f.Is (ascii "host") := by
        intro h
        exact absurd (h.symm.trans hagent) (by decide)
      rw [if_neg hhost, if_pos hagent, List.filter_cons_of_pos (by simpa using hagent),
        List.map_cons, List.getLastD_cons]
    · rw [List.filter_cons_of_neg (by simpa using hagent), if_neg hagent]
      split <;> rfl

/-- The map keeps the first value of each of the other headers. -/
theorem foldl_addTo_headers (fields : List HeaderField) (p : HttpHeaderParser) (name : Bytes) :
    (fields.foldl HeaderField.addTo p).headers.find name =
      (p.headers.find name).or ((otherFields fields).lookup name) := by
  induction fields generalizing p with
  | nil => simp [otherFields]
  | cons f fields ih =>
    rw [List.foldl_cons, ih]
    unfold otherFields HeaderField.addTo
    by_cases hother : f.Other
    · -- `emplace` changes nothing when the name is there already
      rw [if_neg hother.1, if_neg hother.2, HeaderMap.find_emplace, Option.or_assoc,
        List.filter_cons_of_pos (by simpa using hother), List.map_cons, ← List.lookup_append,
        List.singleton_append]
    · rw [List.filter_cons_of_neg (by simpa using hother)]
      have hspecial : f.Is (ascii "host") ∨ f.Is (ascii "user-agent") := by
        by_contra h
        exact hother (not_or.mp h)
      split
      · rfl
      · rename_i hhost
        rw [if_pos (hspecial.resolve_left hhost)]

/-! ## Requests -/

/-- A request without a body that the parser knows all about: a recognised method and
    version, at most one Host and one User-Agent header, and no header with a meaning for the
    length of the body or for the connection. -/
structure PlainRequest where
  method : HttpMethod
  uri : Bytes
  version : HttpVersion
  host : Option Bytes
  userAgent : Option Bytes
  fields : List HeaderField
  method_recognised : method.Recognised
  uri_ne_nil : uri ≠ []
  uri_text : SP ∉ uri ∧ CR ∉ uri ∧ LF ∉ uri ∧ 0 ∉ uri
  version_recognised : version.Recognised
  fields_plain : ∀ f ∈ fields, f.Plain
  host_eq : valuesOf (ascii "host") fields = host.toList
  userAgent_eq : valuesOf (ascii "user-agent") fields = userAgent.toList

namespace PlainRequest

/-- `METHOD URI VERSION` CRLF -/
def firstLine (r : PlainRequest) : Bytes :=
  r.method.name ++ SP :: (r.uri ++ SP :: (httpVersionToString r.version ++ crlf))

def lines (r : PlainRequest) : List Bytes :=
  r.firstLine :: r.fields.map HeaderField.line ++ [crlf]

/-- The request line reads back. -/
theorem parseFirstLine_firstLine (r : PlainRequest) :
    parseFirstLine r.firstLine = (r.method, r.uri, r.version) := by
  have hknown : r.method ≠ .UNKNOWN := by
    rcases r.method_recognised with h | h | h <;> rw [h] <;> decide
  -- the parser tells the methods apart by their first characters
  have hmethod := parseHttpMethod_name hknown
    (SP :: (r.uri ++ SP :: (httpVersionToString r.version ++ crlf)))
  rw [if_pos r.method_recognised] at hmethod
  rw [firstLine, parseFirstLine_known hmethod hknown r.uri_ne_nil r.uri_text.1]
  -- what comes before the version is skipped
  have hline : r.method.name ++ SP :: (r.uri ++ SP :: (httpVersionToString r.version ++ crlf)) =
      (r.method.name ++ SP :: (r.uri ++ [SP])) ++ (httpVersionToString r.version ++ crlf) := by
    simp
  have hlen : r.method.name.length + 1 + r.uri.length + 1 =
      (r.method.name ++ SP :: (r.uri ++ [SP])).length := by
    simp only [List.length_append, List.length_cons, List.length_nil]
    omega
  rw [hline, hlen, parseHttpVersion_text r.version_recognised]

private theorem getLastD_toList (o : Option Bytes) (d : Bytes) :
    o.toList.getLastD d = o.getD d := by
  cases o <;> rfl

/-- **Round trip.** The lines of a request leave in a fresh parser what was sent. -/
theorem roundTrip (r : PlainRequest) :
    ∃ p, r.lines.foldlM pushLine {} = some p ∧ p.state = .Done ∧
      p.method = r.method ∧ p.uri = r.uri ∧ p.version = r.version ∧
      p.host = r.host.getD [] ∧ p.userAgent = r.userAgent.getD [] ∧
      p.contentLength = none ∧ p.connectionFlags = 0 ∧ p.upgradeFlags = 0 ∧
      ∀ name, p.headers.find name = (otherFields r.fields).lookup name := by
  have hfirst : pushFirstLine {} r.firstLine = { ({} : HttpHeaderParser) with
      method := r.method, uri := r.uri, version := r.version, state := .Headers } := by
    simp only [pushFirstLine, r.parseFirstLine_firstLine]
  generalize hp₁ : ({ ({} : HttpHeaderParser) with
    method := r.method, uri := r.uri, version := r.version, state := .Headers } :
      HttpHeaderParser) = p₁ at hfirst
  -- what the headers do to the parser `p₁` that the request line leaves
  have hframe := foldl_addTo_frame r.fields p₁
  have hhost := foldl_addTo_host r.fields p₁
  have hagent := foldl_addTo_userAgent r.fields p₁
  have hheaders := foldl_addTo_headers r.fields p₁
  have hfields := foldlM_fields r.fields_plain (p := p₁) (by rw [← hp₁])
  rw [r.host_eq, getLastD_toList] at hhost
  rw [r.userAgent_eq, getLastD_toList] at hagent
  generalize r.fields.foldl HeaderField.addTo p₁ = p₂ at *
  have hstate : p₂.state = .Headers := by rw [hframe, ← hp₁]
  have hlength : p₂.contentLength = none := by rw [hframe, ← hp₁]
  -- the empty line ends the request, as no body is declared
  refine ⟨p₂.pushBlank, ?_, ?_, ?_, ?_, ?_, ?_, ?_, hlength, ?_, ?_, ?_⟩
  · refine foldlM_block rfl hstate ?_
    rw [hfirst]
    exact hfields
  · rw [pushBlank, hlength]
    rfl
  · show p₂.method = _
    rw [hframe, ← hp₁]
  · show p₂.uri = _
    rw [hframe, ← hp₁]
  · show p₂.version = _
    rw [hframe, ← hp₁]
  · show p₂.host = _
    rw [hhost, ← hp₁]
  · show p₂.userAgent = _
    rw [hagent, ← hp₁]
  · show p₂.connectionFlags = 0
    rw [hframe, ← hp₁]
  · show p₂.upgradeFlags = 0
    rw [hframe, ← hp₁]
  · intro name
    show p₂.headers.find name = _
    rw [hheaders name, ← hp₁]
    rfl

/-- A request with two of its header fields in fields of the parser, and one in the map. -/
theorem roundTrip_plain_get :
    ∃ p, [ascii "GET / HTTP/1.1\r\n", ascii "Host: myserver.com\r\n",
        ascii "User-Agent: Mozilla/5.0\r\n", ascii "Extra-Header: some data\r\n",
        crlf].foldlM pushLine {} = some p ∧
      p.state = .Done ∧ p.method = .GET ∧ p.uri = ascii "/" ∧ p.version = .HTTP_1_1 ∧
      p.host = ascii "myserver.com" ∧ p.userAgent = ascii "Mozilla/5.0" ∧
      p.headers.find (ascii "Extra-Header") = some (ascii "some data") := by
  let field (name value : String) (hne : ascii name ≠ [])
      (hname : SP ∉ ascii name ∧ COLON ∉ ascii name ∧ CR ∉ ascii name ∧ LF ∉ ascii name ∧
        0 ∉ ascii name)
      (hvalue : CR ∉ ascii value ∧ LF ∉ ascii value ∧ 0 ∉ ascii value)
      (hhead : (ascii value).head? ≠ some SP) : HeaderField :=
    ⟨ascii name, ascii value, hne, hname, hvalue, hhead⟩
  let r : PlainRequest :=
    { method := .GET, uri := ascii "/", version := .HTTP_1_1
      host := some (ascii "myserver.com"), userAgent := some (ascii "Mozilla/5.0")
      fields := [
        field "Host" "myserver.com" (by decide) (by decide) (by decide) (by decide),
        field "User-Agent" "Mozilla/5.0" (by decide) (by decide) (by decide) (by decide),
        field "Extra-Header" "some data" (by decide) (by decide) (by decide) (by decide)]
      method_recognised := by decide
      uri_ne_nil := by decide
      uri_text := by decide
      version_recognised := .inr (.inl rfl)
      fields_plain := by unfold HeaderField.Plain; decide
      host_eq := by decide
      userAgent_eq := by decide }
  obtain ⟨p, hrun, hstate, hmethod, huri, hversion, hhost, hagent, -, -, -, hheaders⟩ := r.roundTrip
  exact ⟨p, hrun, hstate, hmethod, huri, hversion, hhost, hagent,
    (hheaders (ascii "Extra-Header")).trans (by decide)⟩

end PlainRequest

end Httpoll.Native
