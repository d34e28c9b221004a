import Httpoll.Spec.Turns

/-!
# The header phase and the segmentation of the stream

Until the empty line that ends the headers has been read, the parser depends only on the
lines of the stream, not on how the kernel cuts the stream into reads: `buffer_` carries
an unfinished line from one read to the next, and there is always room to read more of it
as long as no line is longer than `SMALL_MEMORY`.

## Key results

- `Feeds.of_headers`: the lines of a header block feed the parser up to its first stop
- `headerOutline`: the proof outline of a call in the header phase
- `headerPhase_segmentation`: the first return of 0 or 1 comes with the fold of `PushLine`
-/

namespace Httpoll.Native.Connection

open HttpHeaderParser

variable {σ : Type}

/-! ## Lines up to the first stop -/

/-- A parser that does not stop takes `lines` one by one; on the last of them, and on no
    earlier one, it asks to return, and then it is `q`. When it hangs on the way, `q` is
    `none`. All lines satisfy `ok`. -/
inductive Feeds (ok : Bytes → Prop) :
    HttpHeaderParser → (lines : List Bytes) → Option HttpHeaderParser → Prop where
  | hang {p l ls} (hl : Lines.IsLine CR LF l) (hok : ok l)
    (hgo : ¬ Stops p) (hp : p.pushLine l = none) : Feeds ok p (l :: ls) none
  | last {p q l} (hl : Lines.IsLine CR LF l) (hok : ok l)
    (hgo : ¬ Stops p) (hp : p.pushLine l = some q) (hstop : Stops q) : Feeds ok p [l] (some q)
  | line {p p' q l ls} (hl : Lines.IsLine CR LF l) (hok : ok l)
    (hgo : ¬ Stops p) (hp : p.pushLine l = some p') (rest : Feeds ok p' ls q) :
    Feeds ok p (l :: ls) q

variable {ok : Bytes → Prop}

theorem Feeds.go {p : HttpHeaderParser} {lines : List Bytes} {q : Option HttpHeaderParser}
    (h : Feeds ok p lines q) : ¬ Stops p := by
  cases h <;> assumption

theorem Feeds.stops {p q : HttpHeaderParser} {lines : List Bytes}
    (h : Feeds ok p lines (some q)) : Stops q := by
  generalize hr : some q = r at h
  induction h with
  | hang => cases hr
  | last _ _ _ _ hstop => cases hr; exact hstop
  | line _ _ _ _ _ ih => exact ih hr

/-- The first line that is left. -/
theorem Feeds.exists_cons {p : HttpHeaderParser} {lines : List Bytes}
    {q : Option HttpHeaderParser} (h : Feeds ok p lines q) :
    ∃ l ls, lines = l :: ls ∧ Lines.IsLine CR LF l ∧ ok l ∧
      (p.pushLine l = none ∧ q = none ∨ ∃ p', p.pushLine l = some p' ∧
        (Stops p' ∧ ls = [] ∧ q = some p' ∨ ¬ Stops p' ∧ Feeds ok p' ls q)) := by
  cases h with
  | @hang _ l ls hl hok _ hp => exact ⟨l, ls, rfl, hl, hok, .inl ⟨hp, rfl⟩⟩
  | @last _ q l hl hok _ hp hstop =>
    exact ⟨l, [], rfl, hl, hok, .inr ⟨q, hp, .inl ⟨hstop, rfl, rfl⟩⟩⟩
  | @line _ p' _ l ls hl hok _ hp rest =>
    exact ⟨l, ls, rfl, hl, hok, .inr ⟨p', hp, .inr ⟨rest.go, rest⟩⟩⟩

private theorem Feeds.of_headerLines {p : HttpHeaderParser} {hs : List Bytes}
    (hcrlf : ok crlf) (hlines : ∀ l ∈ hs, Lines.IsLine CR LF l ∧ ok l)
    (hblank : ∀ l ∈ hs, l ≠ crlf) (hstate : p.state = .Headers) :
    Feeds ok p (hs ++ [crlf]) ((hs ++ [crlf]).foldlM pushLine p) := by
  induction hs generalizing p with
  | nil =>
    -- the empty line, in `Headers`: the next state is `Body` or `Done`
    have hgo : ¬ Stops p := by simp [Stops, hstate]
    have hfold : ([] ++ [crlf]).foldlM pushLine p = some p.pushBlank := by
      simp [pushLine_blank hstate]
    rw [hfold]
    refine .last (by decide) hcrlf hgo (pushLine_blank hstate) ?_
    rcases p.pushBlank_state with ⟨h, -⟩ | ⟨h, -⟩
    · exact .inr h
    · exact .inl h
  | cons l hs ih =>
    obtain ⟨hl, hok⟩ := hlines l List.mem_cons_self
    have hgo : ¬ Stops p := by simp [Stops, hstate]
    rw [List.cons_append, List.foldlM_cons]
    cases hp : p.pushLine l with
    | none => exact .hang hl hok hgo hp
    | some p' =>
      have hstate' : p'.state = .Headers := by
        rw [pushLine_header hstate (hblank l List.mem_cons_self)] at hp
        exact (pushHeader_frame hp).1.trans hstate
      exact .line hl hok hgo hp (ih (fun l h => hlines l (List.mem_cons_of_mem _ h))
        (fun l h => hblank l (List.mem_cons_of_mem _ h)) hstate')

/-- A header block feeds a fresh parser: only the empty line at its end makes it stop. -/
theorem Feeds.of_headers {first : Bytes} {hs : List Bytes} {p : HttpHeaderParser}
    (hstate : p.state = .FirstLine) (hcrlf : ok crlf)
    (hlines : ∀ l ∈ first :: hs, Lines.IsLine CR LF l ∧ ok l) (hblank : ∀ l ∈ hs, l ≠ crlf) :
    Feeds ok p (first :: hs ++ [crlf]) ((first :: hs ++ [crlf]).foldlM pushLine p) := by
  obtain ⟨hl, hok⟩ := hlines first List.mem_cons_self
  have hgo : ¬ Stops p := by simp [Stops, hstate]
  rw [List.cons_append, foldlM_firstLine hstate]
  exact .line hl hok hgo (pushLine_firstLine hstate first)
    (of_headerLines hcrlf (fun l h => hlines l (List.mem_cons_of_mem _ h)) hblank rfl)

/-- The same without a condition on the lines. -/
theorem Feeds.of_block {first : Bytes} {hs : List Bytes} (hfirst : Lines.IsLine CR LF first)
    (hlines : ∀ l ∈ hs, Lines.IsLine CR LF l ∧ l ≠ crlf) :
    Feeds (fun _ => True) {} (first :: hs ++ [crlf])
      ((first :: hs ++ [crlf]).foldlM pushLine {}) := by
  refine .of_headers rfl trivial ?_ fun l hl => (hlines l hl).2
  intro l hl
  rcases List.mem_cons.mp hl with rfl | hl
  · exact ⟨hfirst, trivial⟩
  · exact ⟨(hlines l hl).1, trivial⟩

/-! ## The outline of a call -/

/-- The header phase: the buffer and the unread bytes hold the lines that the parser is
    still to be fed, and then `rest`. -/
def HeaderPhase (ok : Bytes → Prop) (q : Option HttpHeaderParser) (rest : Bytes)
    (c : Connection σ) (unread : Bytes) : Prop :=
  ∃ lines, Feeds ok c.parser lines q ∧ c.buffer ++ unread = lines.flatten ++ rest

/-- A line that fits the buffer. -/
def Fits (l : Bytes) : Prop := l.length ≤ SMALL_MEMORY

instance : DecidablePred Fits := fun l => inferInstanceAs (Decidable (l.length ≤ SMALL_MEMORY))

/-- Between two reads the buffer holds less than a line. -/
def BetweenReads (q : Option HttpHeaderParser) (rest : Bytes) (c : Connection σ)
    (unread : Bytes) : Prop :=
  HeaderPhase Fits q rest c unread ∧ Lines.cut CR LF c.buffer = none

/-- A buffer that begins the line `l` and has no line to take off is shorter than `l`. -/
theorem length_lt_of_cut_none {l buffer unread rest : Bytes} (hl : Lines.IsLine CR LF l)
    (hstream : buffer ++ unread = l ++ rest) (hcut : Lines.cut CR LF buffer = none) :
    buffer.length < l.length := by
  by_contra hge
  -- otherwise the buffer would begin with the whole line
  obtain ⟨t, ht⟩ := List.prefix_of_prefix_length_le (hstream ▸ List.prefix_append l rest)
    (List.prefix_append buffer unread) (by omega)
  rw [← ht, hl.cut_append] at hcut
  cases hcut

/-- An unfinished line leaves room in the buffer, and part of the headers unread. -/
theorem BetweenReads.room {q : Option HttpHeaderParser} {rest : Bytes} {c : Connection σ}
    {unread : Bytes} (h : BetweenReads q rest c unread) :
    c.buffer.length < SMALL_MEMORY ∧ rest.length < unread.length := by
  obtain ⟨⟨lines, hfeeds, hstream⟩, hcut⟩ := h
  obtain ⟨l, ls, rfl, hl, hfits, -⟩ := hfeeds.exists_cons
  rw [List.flatten_cons, List.append_assoc] at hstream
  have hshort := length_lt_of_cut_none hl hstream hcut
  have hcount := congrArg List.length hstream
  simp only [List.length_append] at hcount
  unfold Fits at hfits
  exact ⟨by omega, by omega⟩

theorem readLen_of_le {c : Connection σ} (h : c.buffer.length ≤ SMALL_MEMORY) :
    c.readLen = SMALL_MEMORY - c.buffer.length := by
  unfold readLen
  unfold SMALL_MEMORY at *
  omega

/-- What is read fits the buffer. -/
theorem length_append_le {c : Connection σ} {bytes : Bytes} (h : c.buffer.length ≤ SMALL_MEMORY)
    (hle : bytes.length ≤ c.readLen) : (c.buffer ++ bytes).length ≤ SMALL_MEMORY := by
  rw [readLen_of_le h] at hle
  rw [List.length_append]
  omega

/-- Reading moves bytes from the socket to the buffer. -/
theorem HeaderPhase.data {q : Option HttpHeaderParser} {rest : Bytes} {c : Connection σ}
    {unread bytes : Bytes} (h : HeaderPhase ok q rest c (bytes ++ unread)) :
    HeaderPhase ok q rest { c with buffer := c.buffer ++ bytes } unread := by
  obtain ⟨lines, hfeeds, hstream⟩ := h
  exact ⟨lines, hfeeds, by rw [← hstream, List.append_assoc]⟩

/-- In the header phase the next chunk is the next line. -/
theorem HeaderPhase.takes {q : Option HttpHeaderParser} {rest : Bytes} {c : Connection σ}
    {unread chunk rest' pb : Bytes} (h : HeaderPhase ok q rest c unread)
    (htakes : c.Takes chunk rest' pb) :
    c.parser.pushLine chunk = none ∧ q = none ∨
      ∃ p, c.parser.pushLine chunk = some p ∧
        (Stops p ∧ q = some p ∧ rest' ++ unread = rest ∨
          ¬ Stops p ∧ HeaderPhase ok q rest (c.afterPush rest' pb p) unread) := by
  obtain ⟨lines, hfeeds, hstream⟩ := h
  cases htakes with
  | slice _ _ hs => exact absurd (.inr hs) hfeeds.go
  | line hcut =>
    obtain ⟨l, ls, rfl, hl, -, hnext⟩ := hfeeds.exists_cons
    rw [List.flatten_cons, List.append_assoc] at hstream
    -- both are the first line of the same stream
    have hfirst := Lines.cut_append unread hcut
    rw [hstream, hl.cut_append, Option.some.injEq, Prod.mk.injEq] at hfirst
    obtain ⟨rfl, hrest⟩ := hfirst
    -- `PushLine` may hang on the line; else the parser stops on it or goes on
    rcases hnext with hhang | ⟨p, hp, hnext⟩
    · exact .inl hhang
    refine .inr ⟨p, hp, ?_⟩
    rcases hnext with ⟨hstop, rfl, rfl⟩ | ⟨hgo, hfeeds'⟩
    · exact .inl ⟨hstop, rfl, hrest.symm⟩
    · exact .inr ⟨hgo, ls, hfeeds', hrest.symm⟩

/-- The push of a header line, when it returns. -/
theorem HeaderPhase.push {q : Option HttpHeaderParser} {rest : Bytes} {c : Connection σ}
    {unread chunk rest' pb : Bytes} {p : HttpHeaderParser} (h : HeaderPhase ok q rest c unread)
    (htakes : c.Takes chunk rest' pb) (hp : c.parser.pushLine chunk = some p) :
    Stops p ∧ q = some p ∧ rest' ++ unread = rest ∨
      ¬ Stops p ∧ HeaderPhase ok q rest (c.afterPush rest' pb p) unread := by
  rcases h.takes htakes with ⟨hnone, -⟩ | ⟨p', hp', hnext⟩
  · cases hp.symm.trans hnone
  · obtain rfl := Option.some.inj (hp.symm.trans hp')
    exact hnext

/-- The outline of a call in the header phase, on a socket whose peer stays connected. -/
theorem headerOutline (q : Option HttpHeaderParser) (rest : Bytes) :
    CallOutline (σ := σ) Answer.Benign
      (fun c unread _ => BetweenReads q rest c unread)
      (fun c unread _ => HeaderPhase Fits q rest c unread)
      (fun ret c unread _ => ret = -1 ∧ BetweenReads q rest c unread ∨
        ∃ p, q = some p ∧ ret = stateRet p.state ∧ c.parser = p ∧ c.buffer ++ unread = rest) where
  closed hb hlen h := by
    -- there is room in the buffer, so the peer must have closed
    have hroom := h.room.1
    have hzero := hlen hb
    rw [readLen_of_le (by omega)] at hzero
    omega
  again _ h := by
    obtain ⟨lines, hfeeds, -⟩ := h.1
    exact .inl ⟨stateRet_of_not_stops hfeeds.go, h⟩
  retry h := h.1
  data _ _ h := h.1.data
  exhausted hex h := ⟨h, hex.1⟩
  push htakes hp hgo h := ((h.push htakes hp).resolve_left fun hstop => hgo hstop.1).2
  stop htakes hp hstop h := by
    obtain ⟨-, hq, hrest⟩ := (h.push htakes hp).resolve_right fun hgo => hgo.1 hstop
    exact .inr ⟨_, hq, rfl, rfl, hrest⟩

/-- A call in the header phase does not hang when `PushLine` does not. -/
theorem BetweenReads.processDataIn_ne_none {q : HttpHeaderParser} {rest : Bytes}
    {c : Connection σ} {s : Socket} (h : BetweenReads (some q) rest c s.unread) :
    c.processDataIn s ≠ none := by
  apply (headerOutline (some q) rest).processDataIn_ne_none _ h
  intro c unread log chunk rest' pb htakes h
  rcases h.takes htakes with ⟨-, hq⟩ | ⟨p, hp, -⟩
  · cases hq
  · rw [hp]; exact Option.some_ne_none p

/-! ## Runs -/

/-- As long as no call has returned 0 or 1, every call has returned -1 and the connection
    is in the header phase. -/
theorem Turns.headerPhase {c₀ c : Connection σ} {s₀ s : Socket} {ts : List Turn}
    {q : Option HttpHeaderParser} {rest : Bytes} (h₀ : BetweenReads q rest c₀ s₀.unread)
    (hbenign : ∀ a ∈ s₀.answers, a.Benign) (run : Turns c₀ s₀ ts c s)
    (hts : ∀ t ∈ ts, t.ret ≠ 0 ∧ t.ret ≠ 1) :
    (∀ t ∈ ts, t.ret = -1) ∧ BetweenReads q rest c s.unread := by
  -- the phase is kept by every call that returns -1
  induction run with
  | nil => exact ⟨by simp, h₀⟩
  | @wait ts c s ret c' s' log run h hret ih =>
    obtain ⟨hall, hphase⟩ := ih fun t ht => hts t (List.mem_append_left _ ht)
    have hb : ∀ a ∈ s.answers, a.Benign := fun a ha =>
      hbenign a (run.answers_suffix.subset ha)
    -- the end of the headers would have made the call return 0 or 1
    rcases ((headerOutline q rest).returned hb hphase h).1 with ⟨rfl, hnext⟩ | ⟨p, rfl, hq, -⟩
    · refine ⟨?_, hnext⟩
      intro t ht
      rcases List.mem_append.mp ht with ht | ht
      · exact hall t ht
      · rw [List.mem_singleton.mp ht]
    · obtain ⟨lines, hfeeds, -⟩ := hphase.1
      rcases stateRet_of_stops hfeeds.stops with h0 | h1
      · exact absurd (hq.trans h0) hret.1
      · exact absurd (hq.trans h1) hret.2
  | handle run h hret left ih =>
    have := hts _ (List.mem_append_right _ List.mem_cons_self)
    exact absurd hret (by simpa using this)

/-- **Segmentation of the header block.** However the kernel cuts the stream into reads,
    and however often `ProcessDataIn` is called again, it returns -1 until it returns 0 or 1
    for the first time, and then the parser is what `PushLine` makes of the lines up to the
    empty one. It does not return -1 any more once the header block has been read. -/
theorem headerPhase_segmentation {fd : Int} {first : Bytes} {hs : List Bytes} {rest : Bytes}
    {p : HttpHeaderParser} {answers : List Answer}
    (hlines : ∀ l ∈ first :: hs, Lines.IsLine CR LF l ∧ l.length ≤ SMALL_MEMORY)
    (hblank : ∀ l ∈ hs, l ≠ crlf)
    (hfold : (first :: hs ++ [crlf]).foldlM pushLine {} = some p)
    (hbenign : ∀ a ∈ answers, a.Benign) {ts : List Turn} {c : Connection σ} {s : Socket}
    (run : Turns { fd } ⟨(first :: hs ++ [crlf]).flatten ++ rest, answers⟩ ts c s)
    (hts : ∀ t ∈ ts, t.ret ≠ 0 ∧ t.ret ≠ 1) :
    (∀ t ∈ ts, t.ret = -1) ∧ c.processDataIn s ≠ none ∧
      ∀ ret c' s' log, c.processDataIn s = some (.returned ret c' s' log) →
        ret = -1 ∧ rest.length < s'.unread.length ∨
          (ret = 0 ∨ ret = 1) ∧ ret = stateRet p.state ∧ c'.parser = p := by
  -- the lines of the block are what the parser waits for
  have hfeeds : Feeds Fits {} (first :: hs ++ [crlf]) (some p) :=
    hfold ▸ .of_headers rfl (by decide) hlines hblank
  have h₀ : BetweenReads (some p) rest ({ fd } : Connection σ)
      ((first :: hs ++ [crlf]).flatten ++ rest) := ⟨⟨_, hfeeds, rfl⟩, rfl⟩
  obtain ⟨hall, hphase⟩ := run.headerPhase h₀ hbenign hts
  have hb : ∀ a ∈ s.answers, a.Benign := fun a ha => hbenign a (run.answers_suffix.subset ha)
  refine ⟨hall, ?_, ?_⟩
  · exact hphase.processDataIn_ne_none
  · intro ret c' s' log h
    -- a call stops behind the last line of the block, or comes back before it
    rcases ((headerOutline (some p) rest).returned hb hphase h).1 with
        ⟨rfl, hnext⟩ | ⟨p', hp, rfl, hq, -⟩
    · exact .inl ⟨rfl, hnext.room.2⟩
    · cases hp
      exact .inr ⟨stateRet_of_stops hfeeds.stops, rfl, hq⟩

/-- A request that arrives in two pieces, the cut inside its first line. -/
theorem headerPhase_segmentation_two_reads :
    let first := ascii "GET / HTTP/1.1" ++ crlf
    let host := ascii "Host: a" ++ crlf
    let answers := [.ready 4, .fail .EAGAIN, .fail .EINTR, .ready 99]
    ∃ (c : Connection Unit) (s : Socket),
      Turns { fd := 4 } ⟨([first, host] ++ [crlf]).flatten ++ [], answers⟩
        [{ ret := -1, log := [] }] c s ∧
      ∀ ret c' s' log, c.processDataIn s = some (.returned ret c' s' log) →
        ret = -1 ∧ ([] : Bytes).length < s'.unread.length ∨
          (ret = 0 ∨ ret = 1) ∧ ret = 1 ∧ c'.parser.uri = ascii "/" ∧
            c'.parser.host = ascii "a" := by
  intro first host answers
  obtain ⟨_, c, s, run, rfl⟩ := exists_turns_of_serve id 1 ({ fd := 4 } : Connection Unit)
    ⟨([first, host] ++ [crlf]).flatten ++ [], answers⟩ Prod.fst (x := [{ ret := -1, log := [] }])
    (by decide)
  obtain ⟨p, hp⟩ := Option.isSome_iff_exists.mp
    (show (([first, host] ++ [crlf]).foldlM pushLine {}).isSome = true by decide)
  have hfields : (([first, host] ++ [crlf]).foldlM pushLine {}).map
      (fun p => (stateRet p.state, p.uri, p.host)) = some (1, ascii "/", ascii "a") := by decide
  rw [hp, Option.map_some, Option.some.injEq, Prod.mk.injEq, Prod.mk.injEq] at hfields
  have hseg := headerPhase_segmentation (by decide) (by decide) hp (by decide) run (by decide)
  refine ⟨c, s, run, ?_⟩
  intro ret c' s' log h
  rcases hseg.2.2 ret c' s' log h with hwait | ⟨hret, heq, rfl⟩
  · exact .inl hwait
  · exact .inr ⟨hret, heq.trans hfields.1, hfields.2.1, hfields.2.2⟩

end Httpoll.Native.Connection
