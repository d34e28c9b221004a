import Httpoll.Spec.BodyCompletion
import Httpoll.Spec.BodyDelivery

/-!
# Bodies and the bytes behind them

A chunk of the body is the first line of `buffer_`, or all of it: `ProcessDataIn` does not
ask the parser how much of the body is missing. When the bytes that follow the body are in
`buffer_` already, they may go with its last chunk.

## Key results

- `FirstChunk.length_le_iff`: when a chunk is within the missing part of the body
- `body_overrun_iff`: a run keeps the bytes behind the body exactly when every
  chunk was
-/

namespace Httpoll.Native.Connection

open HttpHeaderParser

variable {σ : Type}

/-! ## One chunk -/

/-- The first chunk of these bytes has at most `k` of them. -/
theorem FirstChunk.length_le_iff {xs chunk rest : Bytes} (h : FirstChunk xs chunk rest) (k : Nat) :
    chunk.length ≤ k ↔ xs.length ≤ k ∨ crlf <:+: xs.take k := by
  rcases h with hcut | ⟨hnone, rfl, -⟩
  · have hxs := Lines.eq_append_of_cut hcut
    constructor
    · intro hle
      -- the whole line, with its CRLF, is among the first `k` bytes
      obtain ⟨t, ht⟩ := (Lines.isLine_of_cut hcut).eq_append_delim
      refine .inr ⟨t, rest.take (k - chunk.length), ?_⟩
      rw [hxs, List.take_append, List.take_of_length_le hle, ht]
      rfl
    · rintro (hle | hocc)
      · rw [hxs, List.length_append] at hle
        omega
      · cases hfirst : Lines.cut CR LF (xs.take k) with
        | none => exact absurd hocc (Lines.cut_eq_none_iff.mp hfirst)
        | some p =>
          -- the line of the first `k` bytes is that of `xs`
          have hall := Lines.cut_append (xs.drop k) hfirst
          rw [List.take_append_drop, hcut, Option.some.injEq, Prod.mk.injEq] at hall
          have hlen := congrArg List.length (Lines.eq_append_of_cut hfirst)
          rw [List.length_take, List.length_append, ← hall.1] at hlen
          omega
  · refine ⟨.inl, ?_⟩
    rintro (hle | hocc)
    · exact hle
    · exact absurd (hocc.trans (List.take_prefix k chunk).isInfix)
        (Lines.cut_eq_none_iff.mp hnone)

/-- Whenever a chunk of a body of `n` bytes was taken out of `buffer_`, this held no byte
    behind the body, or a CRLF within the missing part of the body. -/
def NoOverrun (n : Nat) (log : List Pushed) : Prop :=
  ∀ pre e post, log = pre ++ e :: post → e.state = .Body →
    e.buffer.length ≤ n - (bodyBytes pre).length ∨
      crlf <:+: e.buffer.take (n - (bodyBytes pre).length)

/-- The chunks that were pushed in state `Body` were the first ones of their buffers. -/
def FirstChunks (log : List Pushed) : Prop :=
  ∀ e ∈ log, e.state = .Body → ∃ rest, FirstChunk e.buffer e.chunk rest

private theorem bodyBytes_singleton_of_ne {e : Pushed} (hs : e.state ≠ .Body) :
    bodyBytes [e] = [] :=
  bodyBytes_of_no_body (by simpa using hs)

private theorem bodyBytes_singleton {e : Pushed} (hs : e.state = .Body) :
    bodyBytes [e] = e.chunk := by
  simp [bodyBytes, chunks, hs]

/-- The chunks of a body have as many bytes as it, or fewer, exactly when each of them was
    within its missing part. -/
theorem length_bodyBytes_le_iff {n : Nat} {log : List Pushed} (hlog : FirstChunks log) :
    (bodyBytes log).length ≤ n ↔ NoOverrun n log := by
  constructor
  · rintro hle pre e post rfl hs
    obtain ⟨rest, hchunk⟩ := hlog e (by simp) hs
    rw [← hchunk.length_le_iff]
    rw [show pre ++ e :: post = pre ++ ([e] ++ post) from rfl, bodyBytes_append, bodyBytes_append,
      bodyBytes_singleton hs, List.length_append, List.length_append] at hle
    omega
  · intro hno
    -- the last push adds no more than what is missing by then
    induction log using List.reverseRecOn with
    | nil => exact Nat.zero_le n
    | append_singleton log e ih =>
      have hle := ih (fun e' he' => hlog e' (List.mem_append_left _ he')) fun pre e' post hpost =>
        hno pre e' (post ++ [e]) (by rw [hpost]; simp)
      rw [bodyBytes_append, List.length_append]
      by_cases hs : e.state = .Body
      · obtain ⟨rest, hchunk⟩ := hlog e (by simp) hs
        have := (hchunk.length_le_iff _).mpr (hno log e [] rfl hs)
        rw [bodyBytes_singleton hs]
        omega
      · rw [bodyBytes_singleton_of_ne hs]
        exact hle

/-! ## Runs -/

/-- The buffer never holds more than a chunk may. -/
theorem Turns.firstChunks {c₀ c : Connection σ} {s₀ s : Socket} {ts : List Turn}
    (h₀ : c₀.buffer.length ≤ SMALL_MEMORY) (run : Turns c₀ s₀ ts c s) :
    c.buffer.length ≤ SMALL_MEMORY ∧ FirstChunks (pushes ts) := by
  apply run.invariant (J := fun c _ log => c.buffer.length ≤ SMALL_MEMORY ∧ FirstChunks log)
  · intro c unread log bytes _ hle h
    exact ⟨length_append_le h.1 hle, h.2⟩
  · rintro c unread log chunk rest pb p htakes - ⟨hlen, hlog⟩
    refine ⟨Nat.le_trans (Nat.le_of_lt htakes.length_rest_lt) hlen, ?_⟩
    intro e he hs
    rcases List.mem_append.mp he with he | he
    · exact hlog e he hs
    · rw [List.mem_singleton.mp he]
      -- a slice is all of `buffer_`, which is never longer than the slice may be
      cases htakes with
      | line hcut => exact ⟨rest, .inl hcut⟩
      | slice hcut _ _ => exact ⟨[], .inr ⟨hcut, List.take_of_length_le hlen, rfl⟩⟩
  · intro c unread log left h
    exact h
  · exact ⟨h₀, by simp [FirstChunks]⟩

/-- The chunks pushed in state `Body`, the buffer and the unread bytes make up what comes
    after the headers, as long as the request is not complete. -/
def AfterHeaders (q : Option HttpHeaderParser) (stream : Bytes) (c : Connection σ)
    (unread : Bytes) (log : List Pushed) : Prop :=
  HeaderPhase (fun _ => True) q stream c unread ∧ bodyBytes log = [] ∨
    Stops c.parser ∧
      ((∀ e ∈ log, e.state ≠ .Done) → bodyBytes log ++ (c.buffer ++ unread) = stream)

theorem AfterHeaders.data {q : Option HttpHeaderParser} {stream unread bytes : Bytes}
    {c : Connection σ} {log : List Pushed} (h : AfterHeaders q stream c (bytes ++ unread) log) :
    AfterHeaders q stream { c with buffer := c.buffer ++ bytes } unread log := by
  rcases h with ⟨hheaders, hlog⟩ | ⟨hstop, hstream⟩
  · exact .inl ⟨hheaders.data, hlog⟩
  · exact .inr ⟨hstop, fun hdone => by rw [List.append_assoc]; exact hstream hdone⟩

theorem AfterHeaders.push {q : Option HttpHeaderParser} {stream unread chunk rest pb : Bytes}
    {c : Connection σ} {log : List Pushed} {p : HttpHeaderParser}
    (htakes : c.Takes chunk rest pb) (hp : c.parser.pushLine chunk = some p)
    (h : AfterHeaders q stream c unread log) :
    AfterHeaders q stream (c.afterPush rest pb p) unread (log ++ [c.pushedOf chunk]) := by
  rcases h with ⟨hheaders, hlog⟩ | ⟨hstop, hstream⟩
  · -- a header line is no part of the body
    have hgo : ¬ Stops c.parser := by
      obtain ⟨lines, hfeeds, -⟩ := hheaders
      exact hfeeds.go
    have hlog' : bodyBytes (log ++ [c.pushedOf chunk]) = [] := by
      rw [bodyBytes_append, hlog, bodyBytes_singleton_of_ne fun hs => hgo (.inr hs)]
      rfl
    rcases hheaders.push htakes hp with ⟨hstop, -, hrest⟩ | ⟨-, hnext⟩
    · exact .inr ⟨hstop, fun _ => by rw [hlog']; exact hrest⟩
    · exact .inl ⟨hnext, hlog'⟩
  · rcases hstop with hdone | hbody
    · -- the request is complete
      rw [pushLine_done hdone, Option.some.injEq] at hp
      subst hp
      exact .inr ⟨.inl hdone, fun hlog => absurd hdone (hlog (c.pushedOf chunk) (by simp))⟩
    · rw [pushLine_body hbody, Option.some.injEq] at hp
      subst hp
      refine .inr ⟨pushBody_state hbody chunk, ?_⟩
      intro hlog
      have hbefore := hstream fun e he => hlog e (List.mem_append_left _ he)
      rw [htakes.buffer_eq] at hbefore
      rw [bodyBytes_append, bodyBytes_singleton hbody, ← hbefore]
      simp [afterPush, pushedOf]

theorem Turns.afterHeaders {c₀ c : Connection σ} {s₀ s : Socket} {ts : List Turn}
    {q : Option HttpHeaderParser} {stream : Bytes}
    (h₀ : HeaderPhase (fun _ => True) q stream c₀ s₀.unread) (run : Turns c₀ s₀ ts c s) :
    AfterHeaders q stream c s.unread (pushes ts) := by
  apply run.invariant (J := AfterHeaders q stream)
  · intro c unread log bytes _ _ h
    exact h.data
  · intro c unread log chunk rest pb p htakes hp h
    exact h.push htakes hp
  · intro c unread log left h
    exact h
  · exact .inl ⟨h₀, rfl⟩

/-- A request that declares a body of `n ≥ 1` bytes, and that body. -/
structure SizedRequest (n : Nat) (first : Bytes) (hs : List Bytes) (body : Bytes) : Prop where
  firstLine : Lines.IsLine CR LF first
  headerLines : ∀ l ∈ hs, Lines.IsLine CR LF l ∧ l ≠ crlf
  declared : ∃ l ∈ hs, DeclaresLength n l
  pos : 1 ≤ n
  body_length : body.length = n

/-- **Bodies that overrun their length.** Take any run of a request with a body of `n` bytes
    and of whatever comes behind it, up to the completion of the request. The chunks of the
    body have at most `n` bytes, and those behind the body stay in the buffer or unread,
    exactly when no chunk was taken out of a buffer that held bytes behind the body, unless
    a CRLF in the missing part of the body came first. -/
theorem body_overrun_iff {n : Nat} {first body trailing : Bytes} {hs : List Bytes}
    (hreq : SizedRequest n first hs body) {fd : Int} {answers : List Answer} {ts : List Turn}
    {c : Connection σ} {s : Socket}
    (run : Turns { fd } ⟨(first :: hs ++ [crlf]).flatten ++ body ++ trailing, answers⟩ ts c s)
    (hdone : ∀ e ∈ pushes ts, e.state ≠ .Done) :
    (bodyBytes (pushes ts)).length ≤ n ∧ trailing <:+ c.buffer ++ s.unread ↔
      NoOverrun n (pushes ts) := by
  have hfeeds := Feeds.of_block hreq.firstLine hreq.headerLines
  have hphase : AfterHeaders _ (body ++ trailing) c s.unread (pushes ts) :=
    run.afterHeaders ⟨_, hfeeds, List.append_assoc ..⟩
  rw [← length_bodyBytes_le_iff (run.firstChunks (Nat.zero_le _)).2]
  refine ⟨fun h => h.1, fun hle => ⟨hle, ?_⟩⟩
  rcases hphase with ⟨⟨lines, -, hstream⟩, -⟩ | ⟨-, hstream⟩
  · rw [hstream, ← List.append_assoc]
    exact List.suffix_append ..
  · -- the chunks are the beginning of the body
    have hall := hstream hdone
    rw [← hreq.body_length] at hle
    obtain ⟨rest, hrest⟩ := List.prefix_of_prefix_length_le
      (hall ▸ List.prefix_append ..) (List.prefix_append body trailing) hle
    rw [← hrest, List.append_assoc, List.append_cancel_left_eq] at hall
    exact hall ▸ List.suffix_append ..

private def longFirst : Bytes := ascii "POST / HTTP/1.1" ++ crlf

private def longLength : Bytes := ascii "Content-Length: 4" ++ crlf

private theorem post_abcd : SizedRequest 4 longFirst [longLength] (ascii "abcd") where
  firstLine := by decide
  headerLines := by decide
  declared := ⟨longLength, by simp,
    declaresLength_digits (show ascii "4" ≠ [] by decide) (by decide) (by decide)⟩
  pos := by decide
  body_length := by decide

/-- The next request, sent right behind the body. -/
private def nextRequest : Bytes := ascii "GET / HTTP/1.1" ++ crlf ++ crlf

/-- A read that ends with the body leaves the next request alone. -/
theorem body_overrun_abcd :
    ∃ (ts : List Turn) (c : Connection Unit) (s : Socket),
      Turns { fd := 4 } ⟨(longFirst :: [longLength] ++ [crlf]).flatten ++ ascii "abcd" ++
        nextRequest, [.ready 37, .ready 3, .ready 99]⟩ ts c s ∧
      (bodyBytes (pushes ts)).length = 4 ∧ nextRequest <:+ c.buffer ++ s.unread ∧
      NoOverrun 4 (pushes ts) := by
  obtain ⟨ts, c, s, run, hc⟩ := exists_turns_of_serve id 2 ({ fd := 4 } : Connection Unit)
    ⟨(longFirst :: [longLength] ++ [crlf]).flatten ++ ascii "abcd" ++ nextRequest,
      [.ready 37, .ready 3, .ready 99]⟩
    (fun r => ((bodyBytes (pushes r.1)).length,
      decide (nextRequest <:+ r.2.1.buffer ++ r.2.2.unread),
      decide (∀ e ∈ pushes r.1, e.state ≠ .Done)))
    (x := (4, true, true)) (by decide)
  simp only [Prod.mk.injEq, decide_eq_true_eq] at hc
  obtain ⟨hlen, hsuffix, hdone⟩ := hc
  exact ⟨ts, c, s, run, hlen, hsuffix,
    (body_overrun_iff post_abcd run hdone).mp ⟨hlen.le, hsuffix⟩⟩

/-- A read that goes on behind the body: the first line of the next request goes with it. -/
theorem body_overrun_pipelined :
    SizedRequest 4 longFirst [longLength] (ascii "abcd") ∧
      ∃ (ts : List Turn) (c : Connection Unit) (s : Socket),
        Turns { fd := 4 } ⟨(longFirst :: [longLength] ++ [crlf]).flatten ++ ascii "abcd" ++
          nextRequest, [.ready 37, .ready 99]⟩ ts c s ∧
        (∀ e ∈ pushes ts, e.state ≠ .Done) ∧
        bodyBytes (pushes ts) = ascii "abcdGET / HTTP/1.1" ++ crlf ∧
        ¬ (bodyBytes (pushes ts)).length ≤ 4 ∧ ¬ nextRequest <:+ c.buffer ++ s.unread := by
  refine ⟨post_abcd, ?_⟩
  obtain ⟨ts, c, s, run, hc⟩ := exists_turns_of_serve id 2 ({ fd := 4 } : Connection Unit)
    ⟨(longFirst :: [longLength] ++ [crlf]).flatten ++ ascii "abcd" ++ nextRequest,
      [.ready 37, .ready 99]⟩
    (fun r => (decide (∀ e ∈ pushes r.1, e.state ≠ .Done), bodyBytes (pushes r.1),
      decide (nextRequest <:+ r.2.1.buffer ++ r.2.2.unread)))
    (x := (true, ascii "abcdGET / HTTP/1.1" ++ crlf, false)) (by decide)
  simp only [Prod.mk.injEq, decide_eq_true_eq, decide_eq_false_iff_not] at hc
  obtain ⟨hdone, hbody, hsuffix⟩ := hc
  refine ⟨ts, c, s, run, hdone, hbody, ?_, hsuffix⟩
  rw [hbody]
  decide

end Httpoll.Native.Connection
