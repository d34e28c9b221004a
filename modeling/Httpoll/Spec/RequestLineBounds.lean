import Httpoll.Native.RequestLineReads
import Httpoll.Spec.Requests

/-!
# Memory safety of the request line

The recognisers load four bytes at a time, from the start of the line, from behind its second
space, and from five bytes further on when `HTTP/` stands there. Nobody looks whether the line
has that many bytes. Every scan stops at the terminating NUL.

## Key results

- `readHttpVersion_ok`, `readHttpVersion_fault`: the bytes that the version needs
- `readFirstLine_eq`: a request line that is read in bounds is parsed as in `parseFirstLine`
- `readFirstLine_inBounds_iff`: the lines that are read in bounds
-/

namespace Httpoll.Native

open CheckedBuffer

variable {line : Bytes}

/-! ## The memory of a line -/

private theorem memory_length (line : Bytes) : (memory line).length = line.length + 1 := by
  simp [memory]

/-- Behind the line there are only zeros. -/
private theorem byteAt_memory (line : Bytes) (i : Nat) :
    byteAt (memory line) i = byteAt line i := by
  simp only [byteAt, memory, List.getD_eq_getElem?_getD]
  rcases Nat.lt_trichotomy i line.length with hlt | rfl | hgt
  · rw [List.getElem?_append_left hlt]
  · simp
  · rw [List.getElem?_eq_none (by simp; omega), List.getElem?_eq_none (by omega)]

/-- Four bytes of the memory are the integer there. -/
private theorem load32_memory (line : Bytes) (p : Nat) :
    load32 (((memory line).drop p).take 4) 0 = load32 line p := by
  have hbyte : ∀ i < 4, byteAt (((memory line).drop p).take 4) i = byteAt line (p + i) := by
    intro i hi
    rw [← byteAt_memory line, byteAt, byteAt, List.getD_eq_getElem?_getD,
      List.getD_eq_getElem?_getD, List.getElem?_take_of_lt hi, List.getElem?_drop]
  simp only [load32, Nat.zero_add, hbyte 0 (by decide), hbyte 1 (by decide), hbyte 2 (by decide),
    hbyte 3 (by decide), Nat.add_zero]

private theorem load_memory {p : Nat} (h : p + 3 ≤ line.length) :
    load (memory line) p 4 = .ok (((memory line).drop p).take 4) :=
  load_of_le (by rw [memory_length]; omega)

private theorem load_memory_fault {p : Nat} (h : line.length < p + 3) :
    ∃ i, load (memory line) p 4 = .error (.outOfBounds i (line.length + 1)) := by
  rw [← memory_length]
  exact load_of_lt _ p (by decide) (by rw [memory_length]; omega)

/-- A scan that stops at a NUL stays in the memory, and the NUL at the end counts as one. -/
private theorem scan_memory {pred : UInt8 → Bool} (hpred : pred 0 = true) {p : Nat}
    (h : p ≤ line.length) :
    scan pred (memory line) p = .ok ((line.drop p).takeWhile fun c => !pred c) := by
  have hdrop : (memory line).drop p = line.drop p ++ [0] := List.drop_append_of_le_length h
  have htake : (line.drop p ++ [0]).takeWhile (fun c => !pred c) =
      (line.drop p).takeWhile fun c => !pred c := by
    induction line.drop p with
    | nil => simp [hpred]
    | cons c t ih =>
      rw [List.cons_append, List.takeWhile_cons, List.takeWhile_cons, ih]
  rw [scan_of_mem ⟨0, by rw [hdrop]; simp, hpred⟩, hdrop, htake]

private theorem readCString_memory {p : Nat} (h : p ≤ line.length) :
    readCString (memory line) p = .ok (cString line p) :=
  scan_memory (by decide) h

/-! ## The version -/

/-- The text that the version is looked for in has the bytes that are loaded. -/
def VersionReadable (text : Bytes) : Prop :=
  3 ≤ text.length ∧ (ascii "HTTP/" <+: text → 8 ≤ text.length)

private theorem readVersionNumber_ok {p : Nat} (h : p + 3 ≤ line.length) :
    readVersionNumber (memory line) p = .ok (httpVersion line p) := by
  have hnumber : httpVersion (((memory line).drop p).take 4) 0 = httpVersion line p := by
    simp only [httpVersion, load32_memory]
  simp only [readVersionNumber, readCString_memory (show p ≤ line.length by omega), load_memory h,
    hnumber, bind, Except.bind]

theorem readHttpVersion_ok (pre : Bytes) {text : Bytes} (h : VersionReadable text) :
    readHttpVersion (memory (pre ++ text)) pre.length =
      .ok (parseHttpVersion (pre ++ text) pre.length) := by
  have hlen : pre.length + 3 ≤ (pre ++ text).length := by
    have := h.1
    rw [List.length_append]
    omega
  simp only [readHttpVersion, readCString_memory (show pre.length ≤ (pre ++ text).length by omega),
    load_memory hlen, bind, Except.bind, parseHttpVersion, http_slash_iff pre text, load32_memory]
  by_cases hbegins : ascii "HTTP/" <+: text
  · have hnumber : pre.length + 5 + 3 ≤ (pre ++ text).length := by
      have := h.2 hbegins
      rw [List.length_append]
      omega
    rw [if_pos hbegins, if_pos hbegins, readVersionNumber_ok hnumber]
  rw [if_neg hbegins, if_neg hbegins]
  by_cases hws : load32 (pre ++ text) pre.length = IntWS
  · -- the four characters that were compared are there
    have hload := load32_append pre text 0
    rw [Nat.add_zero, hws] at hload
    have htext := ((load32_eq_ws_iff text).mp hload.symm).length_le
    have hfour : pre.length + 4 ≤ (pre ++ text).length := by
      rw [List.length_append]
      exact Nat.add_le_add_left htext _
    rw [if_pos hws, if_pos hws, readCString_memory hfour]
  · rw [if_neg hws, if_neg hws]

theorem readHttpVersion_fault (pre : Bytes) {text : Bytes} (h : ¬ VersionReadable text) :
    ∃ i, readHttpVersion (memory (pre ++ text)) pre.length =
      .error (.outOfBounds i ((pre ++ text).length + 1)) := by
  have hpre : pre.length ≤ (pre ++ text).length := by simp
  have hlen : (pre ++ text).length = pre.length + text.length := List.length_append
  by_cases hshort : text.length < 3
  · obtain ⟨i, hi⟩ := load_memory_fault (show (pre ++ text).length < pre.length + 3 by omega)
    exact ⟨i, by simp only [readHttpVersion, readCString_memory hpre, hi, bind, Except.bind]⟩
  · -- the number is not there
    obtain ⟨hbegins, hnumber⟩ : ascii "HTTP/" <+: text ∧ text.length < 8 := by
      by_contra hnot
      refine h ⟨by omega, fun hbegins => ?_⟩
      by_contra hlt
      exact hnot ⟨hbegins, by omega⟩
    have hfive : 5 ≤ text.length := hbegins.length_le
    obtain ⟨i, hi⟩ := load_memory_fault (show (pre ++ text).length < pre.length + 5 + 3 by omega)
    refine ⟨i, ?_⟩
    simp only [readHttpVersion, readCString_memory hpre,
      load_memory (show pre.length + 3 ≤ (pre ++ text).length by omega), bind, Except.bind,
      http_slash_iff pre text, load32_memory, hbegins, if_true, readVersionNumber,
      readCString_memory (show pre.length + 5 ≤ (pre ++ text).length by omega), hi]

/-! ## The method -/

private theorem readHttpMethod_ok (h : 3 ≤ line.length) :
    readHttpMethod (memory line) 0 0 = .ok (parseHttpMethod line 0 0) := by
  simp only [readHttpMethod, load_memory (show 0 + 3 ≤ line.length by omega), bind, Except.bind,
    load32_memory, parseHttpMethod]
  split_ifs <;> rfl

/-! ## The request line -/

/-- A request line with a recognised method, spaces, a URI and another space. -/
structure Spaced (line : Bytes) (m : HttpMethod) (blanks uri text : Bytes) : Prop where
  recognised : m.Recognised
  blanks_text : ∀ c ∈ blanks, c = SP
  uri_ne_nil : uri ≠ []
  uri_text : SP ∉ uri
  line_eq : m.name ++ (blanks ++ (uri ++ SP :: text)) = line

/-- The line has the bytes that are loaded: three at least, and behind its second space those of
    the version. -/
def RequestLineReadable (line : Bytes) : Prop :=
  3 ≤ line.length ∧ ∀ m blanks uri text, Spaced line m blanks uri text → VersionReadable text

private theorem parseHttpMethod_isPrefix {m : HttpMethod} (hm : m.Recognised) {rest : Bytes}
    (hline : m.name ++ rest = line) : parseHttpMethod line 0 0 = (m, m.name.length) := by
  have h := parseHttpMethod_name hm.ne_unknown rest
  rw [if_pos hm, hline] at h
  exact h

private theorem three_le_length {m : HttpMethod} (hm : m.Recognised) {rest : Bytes}
    (hline : m.name ++ rest = line) : 3 ≤ line.length := by
  have hname := hm.length_name
  rw [← hline, List.length_append]
  omega

/-- The loop over the spaces goes past exactly the spaces. -/
private theorem scan_blanks {pre blanks rest : Bytes} (hline : pre ++ (blanks ++ rest) = line)
    (hblanks : ∀ c ∈ blanks, c = SP) (hrest : rest.head? ≠ some SP) :
    scan (· != SP) (memory line) pre.length = .ok blanks := by
  rw [scan_memory (by decide) (by simp [← hline]), ← hline, List.drop_left,
    takeWhile_blanks hblanks hrest]

/-- A line with a second space: the version is read behind it. -/
private theorem Spaced.readFirstLine_eq {m : HttpMethod} {blanks uri text : Bytes}
    (h : Spaced line m blanks uri text) :
    ∃ pre, pre ++ text = line ∧
      parseFirstLine line = (m, uri, parseHttpVersion line pre.length) ∧
      readFirstLine line =
        (readHttpVersion (memory line) pre.length).map fun version => (m, uri, version) := by
  obtain ⟨hm, hblanks, hne, huri, hline⟩ := h
  -- the method is read within the line, as the line goes on behind it
  have hmethod := parseHttpMethod_isPrefix hm hline
  have hknown := hm.ne_unknown
  have hlen := three_le_length hm hline
  have hparse := parseFirstLine_blanks hline hmethod hknown hblanks hne huri
  have hline' : (m.name ++ blanks) ++ (uri ++ SP :: text) = line := by
    rw [List.append_assoc, hline]
  -- the URI ends at the blank before the version
  have hfind := findSpace_append hline' huri
  have hdrop : line.drop (m.name.length + blanks.length) = uri ++ SP :: text := by
    rw [← hline', ← List.length_append, List.drop_left]
  rw [List.length_append] at hfind
  have hpre : ((m.name ++ blanks) ++ (uri ++ [SP])).length =
      m.name.length + blanks.length + uri.length + 1 := by
    simp only [List.length_append, List.length_cons, List.length_nil]
    omega
  refine ⟨(m.name ++ blanks) ++ (uri ++ [SP]), by rw [← hline']; simp, by rw [hpre, hparse], ?_⟩
  rw [hpre]
  simp only [readFirstLine, readHttpMethod_ok hlen, hmethod, hknown, if_false, hfind, hdrop,
    scan_blanks hline hblanks (head?_ne_space hne huri), bind, Except.bind,
    Nat.add_sub_cancel_left, List.take_left]
  cases readHttpVersion (memory line) (m.name.length + blanks.length + uri.length + 1) <;> rfl

/-- A line without a second space: the version is read at the start of the line, where the
    method stands. -/
private theorem readFirstLine_unspaced {m : HttpMethod} {blanks uri : Bytes} (hm : m.Recognised)
    (hblanks : ∀ c ∈ blanks, c = SP) (huri : SP ∉ uri) (hline : m.name ++ (blanks ++ uri) = line) :
    readFirstLine line = .ok (parseFirstLine line) := by
  have hmethod := parseHttpMethod_isPrefix hm hline
  have hknown := hm.ne_unknown
  have hlen := three_le_length hm hline
  have hhead : uri.head? ≠ some SP := fun h => huri (List.mem_of_head? h)
  have hpos := nextCharFrom_blanks hline hblanks hhead
  have hline' : (m.name ++ blanks) ++ uri = line := by rw [List.append_assoc, hline]
  have hfind := findSpace_eq_none hline' huri
  rw [List.length_append] at hfind
  -- no recognised method begins like a version
  have hreadable : VersionReadable line := by
    refine ⟨hlen, fun hbegins => ?_⟩
    obtain ⟨t, ht⟩ := hbegins
    rw [← ht] at hline
    rcases hm with rfl | rfl | rfl <;> exact absurd (List.cons.inj hline).1 (by decide)
  have hversion := readHttpVersion_ok [] hreadable
  rw [List.nil_append, List.length_nil] at hversion
  simp only [readFirstLine, parseFirstLine, readHttpMethod_ok hlen, hmethod, hknown, if_false,
    hpos, scan_blanks hline hblanks hhead, hfind, hversion, bind, Except.bind]

/-- The three cases of a line. -/
private theorem line_cases (line : Bytes) :
    (parseHttpMethod line 0 0).1 = .UNKNOWN ∨ (∃ m blanks uri text, Spaced line m blanks uri text) ∨
      ∃ (m : HttpMethod) (blanks uri : Bytes), m.Recognised ∧ (∀ c ∈ blanks, c = SP) ∧ SP ∉ uri ∧
        m.name ++ (blanks ++ uri) = line := by
  by_cases hknown : (parseHttpMethod line 0 0).1 = .UNKNOWN
  · exact .inl hknown
  rw [← parseFirstLine_fst] at hknown
  obtain ⟨m, hm, rest, rfl⟩ : ∃ m : HttpMethod, m.Recognised ∧ m.name <+: line := by
    rcases (parseFirstLine_fst_ne_unknown_iff line).mp hknown with h | h | h
    · exact ⟨.GET, by decide, h⟩
    · exact ⟨.PUT, by decide, h⟩
    · exact ⟨.POST, by decide, h⟩
  have hsplit := List.takeWhile_append_dropWhile (p := (· == SP)) (l := rest)
  have hblanks : ∀ c ∈ rest.takeWhile (· == SP), c = SP := fun c hc => by
    simpa using List.mem_takeWhile_imp hc
  by_cases hspace : SP ∈ rest.dropWhile (· == SP)
  · obtain ⟨uri, text, htext, huri⟩ := List.eq_append_cons_of_mem hspace
    refine .inr (.inl ⟨m, _, uri, text, hm, hblanks, ?_, huri, by rw [← htext, hsplit]⟩)
    -- the spaces have been skipped
    rintro rfl
    have hhead := List.head_dropWhile_not (p := (· == SP)) (l := rest)
      (by rw [htext]; simp)
    simp [htext] at hhead
  · exact .inr (.inr ⟨m, _, _, hm, hblanks, hspace, by rw [hsplit]⟩)

/-- A line with the bytes that are loaded is parsed as in `parseFirstLine`. -/
theorem readFirstLine_ok (h : RequestLineReadable line) :
    readFirstLine line = .ok (parseFirstLine line) := by
  rcases line_cases line with hunknown | ⟨m, blanks, uri, text, hspaced⟩ |
    ⟨m, blanks, uri, hm, hblanks, huri, hline⟩
  · have hmethod := readHttpMethod_ok h.1
    generalize hresult : parseHttpMethod line 0 0 = result at hunknown hmethod
    obtain ⟨method, pos⟩ := result
    dsimp only at hunknown
    subst hunknown
    simp only [readFirstLine, parseFirstLine, hmethod, hresult, bind, Except.bind, if_true]
  · obtain ⟨pre, hpre, hparse, hread⟩ := hspaced.readFirstLine_eq
    -- only such a line has a version to read
    have hversion := readHttpVersion_ok pre (h.2 m blanks uri text hspaced)
    rw [hpre] at hversion
    rw [hread, hparse, hversion]
    rfl
  · exact readFirstLine_unspaced hm hblanks huri hline

/-- Any other line is read out of bounds. -/
theorem readFirstLine_fault (h : ¬ RequestLineReadable line) :
    ∃ i, readFirstLine line = .error (.outOfBounds i (line.length + 1)) := by
  by_cases hshort : line.length < 3
  · obtain ⟨i, hi⟩ := load_memory_fault (show line.length < 0 + 3 by omega)
    exact ⟨i, by simp only [readFirstLine, readHttpMethod, hi, bind, Except.bind]⟩
  · obtain ⟨m, blanks, uri, text, hspaced, hversion⟩ :
        ∃ m blanks uri text, Spaced line m blanks uri text ∧ ¬ VersionReadable text := by
      -- the line is long enough for a method, so it is the version that is not readable
      by_contra hnone
      refine h ⟨by omega, fun m blanks uri text hspaced => ?_⟩
      by_contra hversion
      exact hnone ⟨m, blanks, uri, text, hspaced, hversion⟩
    obtain ⟨pre, hpre, -, hread⟩ := hspaced.readFirstLine_eq
    obtain ⟨i, hi⟩ := readHttpVersion_fault pre hversion
    rw [hpre] at hi
    exact ⟨i, by rw [hread, hi]; rfl⟩

/-- What is read in bounds is what `parseFirstLine` says. -/
theorem readFirstLine_eq {r : HttpMethod × Bytes × HttpVersion} (h : readFirstLine line = .ok r) :
    r = parseFirstLine line := by
  by_cases hreadable : RequestLineReadable line
  · exact Except.ok.inj (h.symm.trans (readFirstLine_ok hreadable))
  · obtain ⟨i, hi⟩ := readFirstLine_fault hreadable
    rw [hi] at h
    cases h

/-- **Memory safety of the request line.** The reads of `ParseFirstLine` stay between the start
    of the line and its terminating NUL if and only if the line has three bytes, and behind its
    second space, if it has a recognised method and a second space, three bytes, or eight when
    they begin with `HTTP/`. -/
theorem readFirstLine_inBounds_iff (line : Bytes) :
    (∀ i size, readFirstLine line ≠ .error (.outOfBounds i size)) ↔ RequestLineReadable line := by
  constructor
  · intro h
    by_contra hnot
    obtain ⟨i, hi⟩ := readFirstLine_fault hnot
    exact h i _ hi
  · intro h i size hfault
    rw [readFirstLine_ok h] at hfault
    cases hfault

/-- Three lines that are read out of bounds: an empty one, one without a version and one without
    a version number. -/
theorem readFirstLine_outOfBounds :
    (∀ line ∈ [crlf, ascii "GET / \r\n", ascii "GET / HTTP/\r\n"], Lines.IsLine CR LF line) ∧
      readFirstLine crlf = .error (.outOfBounds 3 3) ∧
      readFirstLine (ascii "GET / \r\n") = .error (.outOfBounds 9 9) ∧
      readFirstLine (ascii "GET / HTTP/\r\n") = .error (.outOfBounds 14 14) := by
  decide

end Httpoll.Native
