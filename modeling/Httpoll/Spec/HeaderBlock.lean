import Httpoll.Spec.Session

/-!
# The header block and the parser at the dispatch

An event goes on to the dispatch after the empty line that ends the headers. From then on
the request line and the header map of the parser are those of the header block at the
front of the stream, whatever has been read after it.

## Key results

- `HeadersRead.push`: what the parser knows of the header block grows line by line
- `Session.parsed`: at the dispatch the parser holds the header block of the stream
-/

namespace Httpoll.Native

open HttpHeaderParser Connection

/-- The stream begins with the request line `first`, the header lines `hs` and an empty line. -/
structure HeaderBlock (stream first : Bytes) (hs : List Bytes) : Prop where
  firstLine : Lines.IsLine CR LF first
  headerLines : ∀ l ∈ hs, Lines.IsLine CR LF l ∧ l ≠ crlf
  stream_eq : ∃ rest, stream = (first :: hs ++ [crlf]).flatten ++ rest

private theorem lines_unique {hs hs' : List Bytes} {rest rest' : Bytes}
    (hlines : ∀ l ∈ hs, Lines.IsLine CR LF l ∧ l ≠ crlf)
    (hlines' : ∀ l ∈ hs', Lines.IsLine CR LF l ∧ l ≠ crlf)
    (h : (hs ++ [crlf]).flatten ++ rest = (hs' ++ [crlf]).flatten ++ rest') : hs = hs' := by
  -- both sides are cut at their first line; the empty line ends both blocks
  induction hs generalizing hs' with
  | nil =>
    cases hs' with
    | nil => rfl
    | cons l' hs' =>
      obtain ⟨hl', hblank'⟩ := hlines' l' List.mem_cons_self
      have hcut := congrArg (Lines.cut CR LF) h
      simp only [List.nil_append, List.cons_append, List.flatten_cons, List.append_assoc,
        hl'.cut_append, show Lines.IsLine CR LF crlf from by decide, Lines.IsLine.cut_append,
        Option.some.injEq, Prod.mk.injEq] at hcut
      exact absurd hcut.1.symm hblank'
  | cons l hs ih =>
    obtain ⟨hl, hblank⟩ := hlines l List.mem_cons_self
    have hcut := congrArg (Lines.cut CR LF) h
    cases hs' with
    | nil =>
      simp only [List.nil_append, List.cons_append, List.flatten_cons, List.append_assoc,
        hl.cut_append, show Lines.IsLine CR LF crlf from by decide, Lines.IsLine.cut_append,
        Option.some.injEq, Prod.mk.injEq] at hcut
      exact absurd hcut.1 hblank
    | cons l' hs' =>
      obtain ⟨hl', hblank'⟩ := hlines' l' List.mem_cons_self
      simp only [List.cons_append, List.flatten_cons, List.append_assoc, hl.cut_append,
        hl'.cut_append, Option.some.injEq, Prod.mk.injEq] at hcut
      obtain ⟨rfl, hrest⟩ := hcut
      rw [ih (fun l h => hlines l (List.mem_cons_of_mem _ h))
        (fun l h => hlines' l (List.mem_cons_of_mem _ h)) hrest]

/-- A stream begins with one header block at most. -/
theorem HeaderBlock.unique {stream first first' : Bytes} {hs hs' : List Bytes}
    (h : HeaderBlock stream first hs) (h' : HeaderBlock stream first' hs') :
    first = first' ∧ hs = hs' := by
  obtain ⟨rest, hrest⟩ := h.stream_eq
  obtain ⟨rest', hrest'⟩ := h'.stream_eq
  have hcut := congrArg (Lines.cut CR LF) (hrest.symm.trans hrest')
  simp only [List.cons_append, List.flatten_cons, List.append_assoc, h.firstLine.cut_append,
    h'.firstLine.cut_append, Option.some.injEq, Prod.mk.injEq] at hcut
  exact ⟨hcut.1, lines_unique h.headerLines h'.headerLines hcut.2⟩

/-- The key and the value that the last header branch of `PushLine` gets out of a line. -/
def headerField (line : Bytes) : Option (Bytes × Bytes) :=
  let colon := nextChar line (nextChar line 0 (· != SP)) (· == COLON)
  if headerKind line = .other ∧ colon ≠ line.length then
    some (line.take colon, headerValue line (colon + 1))
  else none

/-- The header fields of a block, under the names that the client spelled. -/
def headerFields (hs : List Bytes) : List (Bytes × Bytes) := hs.filterMap headerField

/-- The value without the blanks before it, up to the line end. -/
theorem headerValue_eq (line : Bytes) (off : Nat) :
    headerValue line off =
      ((line.drop off).dropWhile (· == SP)).takeWhile fun c => !(c == CR || c == LF) := by
  have hend := nextChar_eq line (fun c => c == CR || c == LF)
    (nextChar_le_length line off (· != SP))
  rw [drop_nextChar_bne] at hend
  simp only [headerValue, drop_nextChar_bne, hend, Nat.add_sub_cancel_left]
  exact (List.prefix_iff_eq_take.mp (List.takeWhile_prefix _)).symm

/-- The text before the first colon is the key. -/
theorem headerField_append {name : Bytes} (hcolon : COLON ∉ name) (rest : Bytes) :
    headerField (name ++ COLON :: rest) =
      if headerKind (name ++ COLON :: rest) = .other then some (name, headerValue rest 0)
      else none := by
  generalize hline : name ++ COLON :: rest = line
  have hdrop : line.drop (nextChar line (nextChar line 0 (· != SP)) (· == COLON)) =
      COLON :: rest := by
    have hname : ∀ c ∈ name, (!(c == COLON)) = true := by
      intro c hc
      have hne : c ≠ COLON := fun h => hcolon (h ▸ hc)
      simpa using hne
    rw [drop_nextChar, drop_nextChar_bne, List.drop_zero, dropWhile_blanks (by decide), ← hline,
      List.dropWhile_append_of_pos hname, List.dropWhile_cons_of_neg (by simp)]
  -- what is left tells where the scan stops
  have hat : nextChar line (nextChar line 0 (· != SP)) (· == COLON) = name.length := by
    have hle := nextChar_le_length line (nextChar line 0 (· != SP)) (· == COLON)
    have hlen := congrArg List.length hdrop
    have hall := congrArg List.length hline
    simp only [List.length_drop, List.length_append, List.length_cons] at hlen hall
    omega
  have hne : name.length ≠ line.length := by
    simp only [← hline, List.length_append, List.length_cons]
    omega
  have hkey : line.take name.length = name := by rw [← hline, List.take_left]
  have hvalue : headerValue line (name.length + 1) = headerValue rest 0 := by
    rw [headerValue_eq, headerValue_eq, ← hline, ← List.drop_drop, List.drop_left]
    rfl
  simp only [headerField, hat, hkey, hvalue, ne_eq, hne, not_false_eq_true, and_true]

/-- A line without a colon has no field. -/
theorem headerField_eq_none {line : Bytes} (hcolon : COLON ∉ line) : headerField line = none := by
  have hend : nextChar line (nextChar line 0 (· != SP)) (· == COLON) = line.length := by
    have hle := nextChar_le_length line (nextChar line 0 (· != SP)) (· == COLON)
    by_contra hne
    have hmem := pred_nextChar (Nat.lt_of_le_of_ne hle hne)
    rw [beq_iff_eq, byteAt, List.getD_eq_getElem?_getD,
      List.getElem?_eq_getElem (Nat.lt_of_le_of_ne hle hne), Option.getD_some] at hmem
    exact hcolon (hmem ▸ List.getElem_mem _)
  simp only [headerField, hend, ne_eq, not_true_eq_false, and_false, if_false]

/-- The parser holds the request line and the header fields of a block. -/
structure Parsed (first : Bytes) (hs : List Bytes) (p : HttpHeaderParser) : Prop where
  requestLine : (p.method, p.uri, p.version) = parseFirstLine first
  headers : ∀ name, p.headers.find name = (headerFields hs).lookup name

/-! ## One line -/

private theorem lookup_singleton (name key value : Bytes) :
    [(key, value)].lookup name = if name = key then some value else none := by
  rw [List.lookup_cons, List.lookup_nil]
  by_cases h : name = key
  · simp [h]
  · simp [h, beq_false_of_ne h]

/-- `emplace` keeps the entry that is there. -/
theorem HeaderMap.find_emplace (m : HeaderMap) (key value name : Bytes) :
    (m.emplace key value).find name = (m.find name).or ([(key, value)].lookup name) := by
  unfold HeaderMap.emplace HeaderMap.find
  split
  · rename_i hmem
    rw [lookup_singleton]
    split
    · rename_i hname
      subst hname
      obtain ⟨e, he, hkey⟩ := List.mem_map.mp hmem
      -- the key is there, so the lookup finds it
      have hsome : (m.entries.lookup name).isSome = true := by
        rw [List.lookup_isSome_iff]
        exact ⟨e, he, by simp [hkey]⟩
      obtain ⟨v, hv⟩ := Option.isSome_iff_exists.mp hsome
      rw [hv]
      rfl
    · simp
  · exact List.lookup_append

theorem pushHeader_headerField {fuel : Nat} {p p' : HttpHeaderParser} {line : Bytes}
    (h : p.pushHeader fuel line = some p') :
    p'.headers = match headerField line with
      | some (key, value) => p.headers.emplace key value
      | none => p.headers := by
  rw [pushHeader_headers h]
  unfold headerField pushOther
  by_cases hkind : headerKind line = .other
  · by_cases hcolon : nextChar line (nextChar line 0 (· != SP)) (· == COLON) = line.length
    · simp only [hkind, hcolon, if_true, ne_eq, not_true_eq_false, and_false, if_false]
    · simp only [hkind, hcolon, if_true, ne_eq, not_false_eq_true, and_true, if_false]
  · simp only [hkind, false_and, if_false]

/-- A header line adds its field, unless there is one with its key. -/
theorem pushHeader_find {fuel : Nat} {p p' : HttpHeaderParser} {line : Bytes}
    (h : p.pushHeader fuel line = some p') (name : Bytes) :
    p'.headers.find name = (p.headers.find name).or ((headerFields [line]).lookup name) := by
  rw [pushHeader_headerField h]
  cases hfield : headerField line with
  | none => simp [headerFields, hfield]
  | some field =>
    rw [show headerFields [line] = [field] from by simp [headerFields, hfield]]
    exact p.headers.find_emplace field.1 field.2 name

theorem Parsed.push {first line : Bytes} {hs : List Bytes} {fuel : Nat} {p p' : HttpHeaderParser}
    (h : Parsed first hs p) (hpush : p.pushHeader fuel line = some p') :
    Parsed first (hs ++ [line]) p' := by
  obtain ⟨-, hmethod, huri, hversion, -⟩ := pushHeader_frame hpush
  constructor
  · rw [hmethod, huri, hversion, h.requestLine]
  · intro name
    rw [pushHeader_find hpush, h.headers name, ← List.lookup_append, headerFields, headerFields,
      headerFields, List.filterMap_append]

/-- A block of header lines adds its fields. -/
theorem Parsed.foldlM {first : Bytes} {pre hs : List Bytes} {p q : HttpHeaderParser}
    (h : Parsed first pre p) (hstate : p.state = .Headers) (hne : ∀ l ∈ hs, l ≠ crlf)
    (hfold : hs.foldlM pushLine p = some q) : Parsed first (pre ++ hs) q := by
  induction hs generalizing pre p with
  | nil =>
    obtain rfl := Option.some.inj hfold
    rwa [List.append_nil]
  | cons l hs ih =>
    obtain ⟨p', hpush, hrest⟩ := Runs.foldlM_cons_eq_some.mp hfold
    rw [pushLine_header hstate (hne l List.mem_cons_self)] at hpush
    have hparsed := ih (h.push hpush) ((pushHeader_frame hpush).1.trans hstate)
      (fun l hl => hne l (List.mem_cons_of_mem _ hl)) hrest
    rwa [List.append_assoc, List.singleton_append] at hparsed

/-- The parser after the request line and a block of header lines. -/
theorem Parsed.of_block {first : Bytes} {hs : List Bytes} {q : HttpHeaderParser}
    (hne : ∀ l ∈ hs, l ≠ crlf) (hfold : (first :: hs).foldlM pushLine {} = some q) :
    Parsed first hs q := by
  have hfirst : Parsed first [] (pushFirstLine {} first) := ⟨rfl, fun _ => rfl⟩
  rw [foldlM_firstLine rfl] at hfold
  exact hfirst.foldlM rfl hne hfold

/-- A chunk of the body leaves what was parsed as it is. -/
theorem Parsed.pushBody {first : Bytes} {hs : List Bytes} {p : HttpHeaderParser}
    (h : Parsed first hs p) (chunk : Bytes) : Parsed first hs (p.pushBody chunk) := by
  unfold HttpHeaderParser.pushBody
  cases p.contentLength with
  | none => exact ⟨h.requestLine, h.headers⟩
  | some n => exact ⟨h.requestLine, h.headers⟩

/-! ## The header block -/

variable {σ : Type}

/-- How much of the header block at the front of the stream the parser has been fed. -/
inductive HeadersRead (stream : Bytes) (c : Connection σ) (unread : Bytes) : Prop
  | start (hparser : c.parser = {}) (hstream : c.buffer ++ unread = stream)
  | lines (first : Bytes) (hs : List Bytes) (hstate : c.parser.state = .Headers)
    (hfirst : Lines.IsLine CR LF first) (hlines : ∀ l ∈ hs, Lines.IsLine CR LF l ∧ l ≠ crlf)
    (hstream : (first :: hs).flatten ++ (c.buffer ++ unread) = stream)
    (hparsed : Parsed first hs c.parser)
  | complete (first : Bytes) (hs : List Bytes) (hstops : Stops c.parser)
    (hblock : HeaderBlock stream first hs) (hparsed : Parsed first hs c.parser)

theorem HeadersRead.data {stream : Bytes} {c : Connection σ} {unread bytes : Bytes}
    (h : HeadersRead stream c (bytes ++ unread)) :
    HeadersRead stream { c with buffer := c.buffer ++ bytes } unread := by
  cases h with
  | start hparser hstream => exact .start hparser (by rw [← hstream, List.append_assoc])
  | lines first hs hstate hfirst hlines hstream hparsed =>
    exact .lines first hs hstate hfirst hlines (by rw [← hstream, List.append_assoc]) hparsed
  | complete first hs hstops hblock hparsed => exact .complete first hs hstops hblock hparsed

theorem HeadersRead.push {stream : Bytes} {c : Connection σ} {unread chunk rest pb : Bytes}
    {p : HttpHeaderParser} (htakes : c.Takes chunk rest pb)
    (hp : c.parser.pushLine chunk = some p) (h : HeadersRead stream c unread) :
    HeadersRead stream (c.afterPush rest pb p) unread := by
  have hbuffer := htakes.buffer_eq
  cases h with
  | start hparser hstream =>
    cases htakes with
    -- only the body is taken without a line end
    | slice _ _ hs => rw [hparser] at hs; cases hs
    | line hcut =>
      rw [pushLine_firstLine (by rw [hparser]), Option.some.injEq] at hp
      subst hp
      refine .lines chunk [] rfl (Lines.isLine_of_cut hcut) (by simp) ?_ ⟨rfl, ?_⟩
      · simp [← hstream, hbuffer, afterPush]
      · intro name
        simp [afterPush, pushFirstLine, hparser]
        rfl
  | lines first hs hstate hfirst hlines hstream hparsed =>
    cases htakes with
    | slice _ _ hs => rw [hstate] at hs; cases hs
    | line hcut =>
      have hstream' : (first :: (hs ++ [chunk])).flatten ++ (rest ++ unread) = stream := by
        simp [← hstream, hbuffer]
      -- the empty line ends the block, any other line adds its field
      by_cases hblank : chunk = crlf
      · subst hblank
        rw [pushLine_blank hstate, Option.some.injEq] at hp
        subst hp
        refine .complete first hs ?_ ⟨hfirst, hlines, _, hstream'.symm⟩
          ⟨hparsed.requestLine, hparsed.headers⟩
        rcases c.parser.pushBlank_state with ⟨h, -⟩ | ⟨h, -⟩
        · exact .inr h
        · exact .inl h
      · rw [pushLine_header hstate hblank] at hp
        refine .lines first (hs ++ [chunk]) ((pushHeader_frame hp).1.trans hstate) hfirst ?_
          hstream' (hparsed.push hp)
        intro l hl
        rcases List.mem_append.mp hl with hl | hl
        · exact hlines l hl
        · rw [List.mem_singleton.mp hl]
          exact ⟨Lines.isLine_of_cut hcut, hblank⟩
  | complete first hs hstops hblock hparsed =>
    -- after the block neither the request line nor the map changes
    rcases hstops with hdone | hbody
    · rw [pushLine_done hdone, Option.some.injEq] at hp
      subst hp
      exact .complete first hs (.inl hdone) hblock hparsed
    · rw [pushLine_body hbody, Option.some.injEq] at hp
      subst hp
      exact .complete first hs (pushBody_state hbody chunk) hblock (hparsed.pushBody chunk)

/-! ## At the dispatch -/

/-- `ProcessDataIn` returns -2, or the value for the state of the parser. -/
theorem Connection.processDataIn_ret {c c' : Connection σ} {s s' : Socket} {ret : Int}
    {log : List Pushed} (h : c.processDataIn s = some (.returned ret c' s' log)) :
    ret = -2 ∨ ret = stateRet c'.parser.state := by
  have o : CallOutline (σ := σ) (fun _ => True) (fun _ _ _ => True) (fun _ _ _ => True)
      (fun ret c _ _ => ret = -2 ∨ ret = stateRet c.parser.state) := {
    closed := fun _ _ _ => .inl rfl
    again := fun _ _ => .inr rfl
    retry := id
    data := fun _ _ _ => trivial
    exhausted := fun _ _ => trivial
    push := fun _ _ _ _ => trivial
    stop := fun _ _ _ _ => .inr rfl }
  exact (o.returned (fun _ _ => trivial) trivial h).1

namespace Server

variable {regexMatch : Bytes → Bytes → Option Bool} {pingPong : Bool}

/-- **The parser at the dispatch.** Whatever the client sends and however it is read, an
    event that goes on to the dispatch finds the header block of the stream in the parser. -/
theorem Session.parsed {fd : Int} {stream : Bytes} {answers : List Answer}
    {c c' : Connection σ} {s s' : Socket} {ret : Int}
    (run : Session regexMatch pingPong { fd } ⟨stream, answers⟩ c s)
    (h : Dispatches c s ret c' s') :
    ∃ first hs, HeaderBlock stream first hs ∧ Parsed first hs c'.parser := by
  obtain ⟨ts, hts⟩ := run.turns h.plain
  obtain ⟨log, hcall⟩ := h.call
  have hread : HeadersRead stream c s.unread := by
    apply hts.invariant (J := fun c unread _ => HeadersRead stream c unread)
    · intro c unread log bytes _ _ h
      exact h.data
    · intro c unread log chunk rest pb p htakes hp h
      exact h.push htakes hp
    · intro c unread log left h
      cases h with
      | start hparser hstream => exact .start hparser hstream
      | lines first hs hstate hfirst hlines hstream hparsed =>
        exact .lines first hs hstate hfirst hlines hstream hparsed
      | complete first hs hstops hblock hparsed => exact .complete first hs hstops hblock hparsed
    · exact .start rfl rfl
  have hread' : HeadersRead stream c' s'.unread :=
    call_invariant (J := fun c unread _ => HeadersRead stream c unread)
      (fun _ _ h => h.data) (fun htakes hp h => h.push htakes hp) [] hread hcall
  -- a parser that is still in the headers makes `ProcessDataIn` return -1
  have hstops : Stops c'.parser := by
    by_contra hgo
    have hneg := stateRet_of_not_stops hgo
    rcases processDataIn_ret hcall with hret | hret <;> rcases h.ret_eq with h0 | h1 <;> omega
  cases hread' with
  | start hparser _ => rw [hparser] at hstops; exact absurd hstops (by simp [Stops])
  | lines first hs hstate => exact absurd hstops (by simp [Stops, hstate])
  | complete first hs _ hblock hparsed => exact ⟨first, hs, hblock, hparsed⟩

end Server

end Httpoll.Native
