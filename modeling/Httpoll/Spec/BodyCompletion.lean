import Httpoll.Spec.ContentLength
import Httpoll.Spec.HeaderSegmentation

/-!
# When a body completes

`ProcessDataIn` returns as soon as a chunk of the body has been pushed, and the server calls
it again only when the socket has more to read. A chunk that is still in `buffer_` when the
socket has been read to the end stays there.

## Key results

- `Turns.progress`: headers, body and end of a request, counted in bytes
- `body_completes`: the request completes when the last read finds the parser in state
  `Body` and leaves no line end inside the buffer, and for lengths of 32 bits only then
-/

namespace Httpoll.Native.Connection

open HttpHeaderParser

variable {σ : Type}

/-- A request whose header block declares a body of `n ≥ 1` bytes, once, and which has that
    body. Header lines hold no NUL bytes. -/
structure LengthRequest (n : Nat) (first : Bytes) (hs : List Bytes) (body : Bytes) : Prop where
  firstLine : Lines.IsLine CR LF first
  headerLines : ∀ l ∈ hs, Lines.IsLine CR LF l ∧ l ≠ crlf ∧ 0 ∉ l
  declared : ∃ pre line post, hs = pre ++ line :: post ∧ DeclaresLength n line ∧
    ∀ l ∈ pre ++ post, ¬ Named kContentLength l
  pos : 1 ≤ n
  body_length : body.length = n

/-- The parser after the headers of such a request. -/
def AtBody (n : Nat) (p : HttpHeaderParser) : Prop :=
  p.state = .Body ∧ p.contentLength = some (UInt32.ofNat n) ∧ p.bodyLength = 0

/-- The header lines `hs` declare a body of `n` bytes, once. They hold no NUL bytes. -/
structure DeclaringBlock (n : Nat) (hs : List Bytes) : Prop where
  headerLines : ∀ l ∈ hs, Lines.IsLine CR LF l ∧ l ≠ crlf ∧ 0 ∉ l
  declared : ∃ pre line post, hs = pre ++ line :: post ∧ DeclaresLength n line ∧
    ∀ l ∈ pre ++ post, ¬ Named kContentLength l

/-- The length that the parser compares with is that of `atoi`. -/
theorem DeclaringBlock.atBody {n : Nat} {first : Bytes} {hs : List Bytes}
    (hblock : DeclaringBlock n hs) {q : HttpHeaderParser}
    (hfold : (first :: hs ++ [crlf]).foldlM pushLine {} = some q) :
    AtBody (min n (2 ^ 63 - 1)) q := by
  obtain ⟨pre, line, post, rfl, hdecl, hother⟩ := hblock.declared
  obtain ⟨p, hp, -, rfl⟩ :=
    exists_of_foldlM_block (fun l hl => (hblock.headerLines l hl).2.1) rfl hfold
  obtain ⟨-, hlength, hbody⟩ := foldlM_headers_declared hblock.headerLines hdecl hother rfl hp
  refine ⟨?_, hlength, hbody⟩
  simp [pushBlank, hlength]

theorem LengthRequest.atBody {n : Nat} {first body : Bytes} {hs : List Bytes}
    (hreq : LengthRequest n first hs body) (hn : n < 2 ^ 63) {q : HttpHeaderParser}
    (hfold : (first :: hs ++ [crlf]).foldlM pushLine {} = some q) : AtBody n q := by
  have hblock : DeclaringBlock n hs := ⟨hreq.headerLines, hreq.declared⟩
  -- `strtol` does not saturate
  have hmin : min n (2 ^ 63 - 1) = n := Nat.min_eq_left (by omega)
  exact hmin ▸ hblock.atBody hfold

/-! ## Progress of a request -/

/-- `k` bytes of the body have been pushed, and the others are in the buffer or unread. -/
def BodyPhase (n : Nat) (c : Connection σ) (unread : Bytes) : Prop :=
  c.parser.state = .Body ∧ c.parser.contentLength = some (UInt32.ofNat n) ∧
    ∃ k, c.parser.bodyLength = UInt32.ofNat k ∧ k + (c.buffer ++ unread).length = n

/-- Where a connection is in a request with a body of `n` bytes. A length that does not fit
    32 bits is cut, and the request may end early. -/
def Progress (n : Nat) (q : Option HttpHeaderParser) (body : Bytes) (c : Connection σ)
    (unread : Bytes) : Prop :=
  c.buffer.length ≤ SMALL_MEMORY ∧
    (HeaderPhase (fun _ => True) q body c unread ∨ BodyPhase n c unread ∨
      c.parser.state = .Done ∧ (n < 2 ^ 32 → c.buffer ++ unread = []))

/-- The state after a chunk of the body. -/
theorem pushBody_of_length {p : HttpHeaderParser} {n k : Nat} (hs : p.state = .Body)
    (hlength : p.contentLength = some (UInt32.ofNat n)) (hbody : p.bodyLength = UInt32.ofNat k)
    (chunk : Bytes) :
    p.pushBody chunk = { p with
      bodyLength := UInt32.ofNat (k + chunk.length)
      state := if UInt32.ofNat (k + chunk.length) ≥ UInt32.ofNat n then .Done else .Body } := by
  simp only [pushBody, hlength, hbody, hs, UInt32.ofNat_add]

/-- While nothing wraps, the counter has reached the content length when all is pushed. -/
theorem le_of_ofNat_le {n k : Nat} (hn : n < 2 ^ 32) (hk : k ≤ n)
    (h : UInt32.ofNat k ≥ UInt32.ofNat n) : n ≤ k := by
  have hle : (UInt32.ofNat n).toNat ≤ (UInt32.ofNat k).toNat := h
  rwa [UInt32.toNat_ofNat_of_lt' hn, UInt32.toNat_ofNat_of_lt' (Nat.lt_of_le_of_lt hk hn)] at hle

/-- A push in state `Body`. -/
theorem BodyPhase.push {n : Nat} {c : Connection σ} {unread chunk rest pb : Bytes}
    (htakes : c.Takes chunk rest pb) (h : BodyPhase n c unread) :
    BodyPhase n (c.afterPush rest pb (c.parser.pushBody chunk)) unread ∨
      (c.parser.pushBody chunk).state = .Done ∧ (n < 2 ^ 32 → rest ++ unread = []) := by
  obtain ⟨hs, hlength, k, hbody, hcount⟩ := h
  rw [htakes.buffer_eq, List.append_assoc, List.length_append] at hcount
  rw [pushBody_of_length hs hlength hbody]
  split
  · rename_i hge
    refine .inr ⟨rfl, ?_⟩
    intro hn
    -- the 32-bit counter has not wrapped, so the bytes counted are all that there are
    have := le_of_ofNat_le hn (by omega) hge
    exact List.eq_nil_iff_length_eq_zero.mpr (by omega)
  · refine .inl ⟨rfl, hlength, k + chunk.length, rfl, ?_⟩
    dsimp only [afterPush]
    omega

theorem Progress.push {n : Nat} {q : Option HttpHeaderParser} {body : Bytes} {c : Connection σ}
    {unread chunk rest pb : Bytes} {p : HttpHeaderParser} (hq : ∀ p, q = some p → AtBody n p)
    (hbody : body.length = n) (htakes : c.Takes chunk rest pb)
    (hp : c.parser.pushLine chunk = some p) (h : Progress n q body c unread) :
    Progress n q body (c.afterPush rest pb p) unread := by
  obtain ⟨hlen, hphase⟩ := h
  refine ⟨Nat.le_trans (Nat.le_of_lt htakes.length_rest_lt) hlen, ?_⟩
  rcases hphase with hheaders | hb | ⟨hdone, hnil⟩
  · -- in the headers only the empty line makes the parser stop; the body is counted from 0
    rcases hheaders.push htakes hp with ⟨-, hlast, hrest⟩ | ⟨-, hnext⟩
    · obtain ⟨hs, hl, hzero⟩ := hq p hlast
      exact .inr (.inl ⟨hs, hl, 0, hzero, by simp [afterPush, hrest, hbody]⟩)
    · exact .inl hnext
  · -- a chunk of the body
    rw [pushLine_body hb.1, Option.some.injEq] at hp
    subst hp
    exact .inr (hb.push htakes)
  · -- what is pushed after the end does not change the parser
    rw [pushLine_done hdone, Option.some.injEq] at hp
    subst hp
    refine .inr (.inr ⟨hdone, fun hn => ?_⟩)
    have := hnil hn
    rw [htakes.buffer_eq, List.append_assoc] at this
    exact (List.append_eq_nil_iff.mp this).2

theorem Progress.data {n : Nat} {q : Option HttpHeaderParser} {body : Bytes} {c : Connection σ}
    {unread bytes : Bytes} (hle : bytes.length ≤ c.readLen)
    (h : Progress n q body c (bytes ++ unread)) :
    Progress n q body { c with buffer := c.buffer ++ bytes } unread := by
  obtain ⟨hlen, hphase⟩ := h
  refine ⟨length_append_le hlen hle, ?_⟩
  rcases hphase with hheaders | ⟨hs, hl, k, hb, hcount⟩ | ⟨hdone, hnil⟩
  · exact .inl hheaders.data
  · exact .inr (.inl ⟨hs, hl, k, hb, by rwa [List.append_assoc]⟩)
  · exact .inr (.inr ⟨hdone, fun hn => by rw [List.append_assoc]; exact hnil hn⟩)

theorem Turns.progress {c₀ c : Connection σ} {s₀ s : Socket} {ts : List Turn} {n : Nat}
    {q : Option HttpHeaderParser} {body : Bytes} (hq : ∀ p, q = some p → AtBody n p)
    (hbody : body.length = n) (h₀ : Progress n q body c₀ s₀.unread) (run : Turns c₀ s₀ ts c s) :
    Progress n q body c s.unread := by
  apply run.invariant (J := fun c unread _ => Progress n q body c unread)
  · intro c unread log bytes _ hle h
    exact h.data hle
  · intro c unread log chunk rest pb p htakes hp h
    exact h.push hq hbody htakes hp
  · -- `partial_body_` plays no part in the progress
    intro c unread log left h
    exact h
  · exact h₀

/-! ## The last read -/

/-- CRLF occurs in these bytes only as the last two, if at all. -/
def LineEndOnlyLast (xs : Bytes) : Prop := ∀ ys zs, xs = ys ++ crlf ++ zs → zs = []

/-- What one push takes out of these bytes: the first line, or all of them. -/
def FirstChunk (xs chunk rest : Bytes) : Prop :=
  Lines.cut CR LF xs = some (chunk, rest) ∨ Lines.cut CR LF xs = none ∧ chunk = xs ∧ rest = []

theorem FirstChunk.eq_append {xs chunk rest : Bytes} (h : FirstChunk xs chunk rest) :
    xs = chunk ++ rest := by
  rcases h with h | ⟨-, rfl, rfl⟩
  · exact Lines.eq_append_of_cut h
  · simp

theorem FirstChunk.rest_eq_nil_iff {xs chunk rest : Bytes} (h : FirstChunk xs chunk rest) :
    rest = [] ↔ LineEndOnlyLast xs := by
  constructor
  · rintro rfl ys zs rfl
    rcases h with h | ⟨hnone, -⟩
    · -- the line that is taken off ends no later than the CRLF at hand
      cases hcut : Lines.cut CR LF (ys ++ crlf) with
      | none => exact absurd ⟨ys, [], by simp [crlf]⟩ (Lines.cut_eq_none_iff.mp hcut)
      | some p =>
        rw [Lines.cut_append zs hcut, Option.some.injEq, Prod.mk.injEq] at h
        exact (List.append_eq_nil_iff.mp h.2).2
    · exact absurd ⟨ys, zs, rfl⟩ (Lines.cut_eq_none_iff.mp hnone)
  · intro hlast
    rcases h with h | ⟨-, -, rfl⟩
    · obtain ⟨t, ht⟩ := (Lines.isLine_of_cut h).eq_append_delim
      exact hlast t rest (by rw [Lines.eq_append_of_cut h, ht]; rfl)
    · rfl

/-- The outline of a call that begins in the headers: it does not end the request. -/
private theorem headersOutline {n : Nat} {q : Option HttpHeaderParser} {body : Bytes}
    (hq : ∀ p, q = some p → AtBody n p) :
    CallOutline (σ := σ) (fun _ => True)
      (fun c unread _ => HeaderPhase (fun _ => True) q body c unread)
      (fun c unread _ => HeaderPhase (fun _ => True) q body c unread)
      (fun ret c _ _ => ret ≠ 1 ∧ c.parser.state ≠ .Done) where
  closed _ _ h := by
    obtain ⟨lines, hfeeds, -⟩ := h
    -- `ProcessDataIn` fails before the end of the headers
    exact ⟨by decide, fun hs => hfeeds.go (.inl hs)⟩
  again _ h := by
    obtain ⟨lines, hfeeds, -⟩ := h
    exact ⟨by rw [stateRet_of_not_stops hfeeds.go]; decide, fun hs => hfeeds.go (.inl hs)⟩
  retry h := h
  data _ _ h := h.data
  exhausted _ h := h
  push htakes hp hgo h := ((h.push htakes hp).resolve_left fun hstop => hgo hstop.1).2
  stop htakes hp hstop h := by
    -- the parser stops behind the last header, in state `Body`
    obtain ⟨-, hlast, -⟩ := (h.push htakes hp).resolve_right fun hgo => hgo.1 hstop
    have hs := (hq _ hlast).1
    refine ⟨by rw [hs]; decide, ?_⟩
    intro hdone
    cases hs.symm.trans hdone

/-- The outline of a call that begins in the body, with the bytes `xs` in the buffer or
    unread: a call that reads all of them pushes the first chunk of `xs`. -/
private theorem lastReadOutline {p : HttpHeaderParser} {xs : Bytes} (hs : p.state = .Body) :
    CallOutline (σ := σ) (fun _ => True)
      (fun c unread _ => c.parser = p ∧ c.buffer ++ unread = xs ∧
        c.buffer.length ≤ SMALL_MEMORY ∧ unread ≠ [])
      (fun c unread _ => c.parser = p ∧ c.buffer ++ unread = xs ∧
        c.buffer.length ≤ SMALL_MEMORY ∧ (c.buffer = [] → unread ≠ []))
      (fun ret c unread _ => unread = [] → ∃ chunk rest, FirstChunk xs chunk rest ∧
        c.parser = p.pushBody chunk ∧ ret = stateRet (p.pushBody chunk).state) where
  closed _ _ h hnil := absurd hnil h.2.2.2
  again _ h hnil := absurd hnil h.2.2.2
  retry h := ⟨h.1, h.2.1, h.2.2.1, fun _ => h.2.2.2⟩
  data {c unread log bytes} hne hle h := by
    obtain ⟨hp, hxs, hlen, -⟩ := h
    refine ⟨hp, by rw [← hxs, List.append_assoc], length_append_le hlen hle, ?_⟩
    intro hnil
    exact absurd (List.append_eq_nil_iff.mp hnil).2 hne
  exhausted hex h := by
    -- in the body only an empty buffer stops the inner loop
    obtain ⟨hp, hxs, hlen, hne⟩ := h
    have hnil := hex.2.resolve_right fun hstate => hstate (hp ▸ hs)
    exact ⟨hp, hxs, hlen, hne hnil⟩
  push {c unread log chunk rest pb p'} _ hp' hgo h := by
    obtain ⟨rfl, -⟩ := h
    rw [pushLine_body hs, Option.some.injEq] at hp'
    subst hp'
    exact absurd (pushBody_state hs chunk) hgo
  stop {c unread log chunk rest pb p'} htakes hp' _ h hnil := by
    obtain ⟨rfl, rfl, hlen, -⟩ := h
    subst hnil
    rw [pushLine_body hs, Option.some.injEq] at hp'
    subst hp'
    rw [List.append_nil]
    refine ⟨chunk, rest, ?_, rfl, rfl⟩
    cases htakes with
    | line hcut => exact .inl hcut
    | slice hcut _ _ =>
      exact .inr ⟨hcut, List.take_of_length_le hlen, List.drop_of_length_le hlen⟩

/-- **Completion of a body.** Take any run of a request with a body of `n` bytes, and the
    call of `ProcessDataIn` that reads the last of them. When the parser is in state `Body`
    before that call and the bytes that it has not been fed hold no CRLF but at their end,
    the call completes the request; for a length of 32 bits it does so only then. -/
theorem body_completes {n : Nat} {first body : Bytes} {hs : List Bytes}
    (hreq : LengthRequest n first hs body) (hn : n < 2 ^ 63) {fd : Int} {answers : List Answer}
    {ts : List Turn} {c c' : Connection σ} {s s' : Socket} {ret : Int} {log : List Pushed}
    (run : Turns { fd } ⟨(first :: hs ++ [crlf]).flatten ++ body, answers⟩ ts c s)
    (hunread : s.unread ≠ []) (hcall : c.processDataIn s = some (.returned ret c' s' log))
    (hread : s'.unread = []) :
    (c.parser.state = .Body ∧ LineEndOnlyLast (c.buffer ++ s.unread) →
      ret = 1 ∧ c'.parser.state = .Done) ∧
    (n < 2 ^ 32 → ret = 1 ∧ c'.parser.state = .Done →
      c.parser.state = .Body ∧ LineEndOnlyLast (c.buffer ++ s.unread)) := by
  have hq : ∀ p, (first :: hs ++ [crlf]).foldlM pushLine {} = some p → AtBody n p :=
    fun p hp => hreq.atBody hn hp
  have hfeeds : Feeds (fun _ => True) {} (first :: hs ++ [crlf])
      ((first :: hs ++ [crlf]).foldlM pushLine {}) :=
    .of_block hreq.firstLine fun l hl =>
      ⟨(hreq.headerLines l hl).1, (hreq.headerLines l hl).2.1⟩
  obtain ⟨hlen, hphase⟩ := run.progress hq hreq.body_length
    ⟨Nat.zero_le _, .inl ⟨_, hfeeds, rfl⟩⟩
  rcases hphase with hheaders | ⟨hstate, hlength, k, hbody, hcount⟩ | ⟨hdone, hnil⟩
  · -- a call that begins in the headers returns at the empty line at the latest
    obtain ⟨hret, -⟩ := ((headersOutline hq).returned (fun _ _ => trivial) hheaders hcall).1
    obtain ⟨lines, hgo, -⟩ := hheaders
    exact ⟨fun hcond => absurd (.inr hcond.1) hgo.go, fun _ hone => absurd hone.1 hret⟩
  · obtain ⟨chunk, rest, hchunk, hparser, hret⟩ := ((lastReadOutline hstate).returned
      (fun _ _ => trivial) ⟨rfl, rfl, hlen, hunread⟩ hcall).1 hread
    rw [hchunk.eq_append, List.length_append] at hcount
    rw [pushBody_of_length hstate hlength hbody] at hparser hret
    constructor
    · -- all that is left is pushed at once
      rintro ⟨-, hlast⟩
      have hrest := hchunk.rest_eq_nil_iff.mpr hlast
      have hall : k + chunk.length = n := by
        rw [hrest, List.length_nil] at hcount
        omega
      simp only [hall, ge_iff_le, UInt32.le_refl, if_true] at hparser hret
      exact ⟨hret, by rw [hparser]⟩
    · rintro hn32 ⟨-, hfinal⟩
      refine ⟨hstate, hchunk.rest_eq_nil_iff.mp ?_⟩
      rw [hparser] at hfinal
      dsimp only at hfinal
      split at hfinal
      · rename_i hge
        have := le_of_ofNat_le hn32 (by omega) hge
        exact List.eq_nil_iff_length_eq_zero.mpr (by omega)
      · cases hfinal
  · refine ⟨fun hcond => absurd (hcond.1.symm.trans hdone) (by decide), fun hn32 _ => ?_⟩
    exact absurd (List.append_eq_nil_iff.mp (hnil hn32)).2 hunread

/-! ## One request, two segmentations -/

private def postLine : Bytes := ascii "POST / HTTP/1.1" ++ crlf

private def lengthLine : Bytes := ascii "Content-Length: 5" ++ crlf

private theorem post_hello : LengthRequest 5 postLine [lengthLine] (ascii "hello") where
  firstLine := by decide
  headerLines := by decide
  declared := ⟨[], lengthLine, [], rfl,
    declaresLength_digits (show ascii "5" ≠ [] by decide) (by decide) (by decide), by simp⟩
  pos := by decide
  body_length := by decide

/-- What is left unread when a call returns. -/
def CallResult.unread? : CallResult σ → Option Bytes
  | .returned _ _ s _ => some s.unread
  | .unfinished .. => none

/-- A body that is read after the headers completes. -/
theorem body_completes_two_reads :
    ∃ (ts : List Turn) (c c' : Connection Unit) (s s' : Socket) (log : List Pushed),
      Turns { fd := 4 } ⟨(postLine :: [lengthLine] ++ [crlf]).flatten ++ ascii "hello",
        [.ready 37, .ready 99]⟩ ts c s ∧
      c.processDataIn s = some (.returned 1 c' s' log) ∧ c'.parser.state = .Done := by
  obtain ⟨ts, c, s, run, hc⟩ := exists_turns_of_serve id 1 ({ fd := 4 } : Connection Unit)
    ⟨(postLine :: [lengthLine] ++ [crlf]).flatten ++ ascii "hello", [.ready 37, .ready 99]⟩
    (fun r => (r.2.1.parser.state, r.2.1.buffer, r.2.2.unread,
      (r.2.1.processDataIn r.2.2).bind CallResult.unread?))
    (x := (.Body, [], ascii "hello", some [])) (by decide)
  simp only [Prod.mk.injEq] at hc
  obtain ⟨hstate, hbuffer, hunread, hlast⟩ := hc
  obtain ⟨r, hcall, hr⟩ := Option.bind_eq_some_iff.mp hlast
  cases r with
  | returned ret c' s' log =>
    -- what is left of the stream is the body, which has no line end
    have hend : LineEndOnlyLast (c.buffer ++ s.unread) := by
      rw [hbuffer, hunread]
      exact (FirstChunk.rest_eq_nil_iff (.inr ⟨by decide, rfl, rfl⟩)).mp rfl
    obtain ⟨rfl, hdone⟩ := (body_completes post_hello (by decide) run
      (by rw [hunread]; decide) hcall (Option.some.inj hr)).1 ⟨hstate, hend⟩
    exact ⟨ts, c, c', s, s', log, run, hcall, hdone⟩
  | unfinished => cases hr

/-- A body that is read together with the headers is left in `buffer_`, with nothing more
    to be read. -/
theorem body_stranded :
    LengthRequest 5 postLine [lengthLine] (ascii "hello") ∧
      ∃ (ts : List Turn) (c : Connection Unit) (s : Socket),
        Turns { fd := 4 } ⟨(postLine :: [lengthLine] ++ [crlf]).flatten ++ ascii "hello",
          [.ready 99]⟩ ts c s ∧
        ts.map Turn.ret = [0] ∧ s.unread = [] ∧ c.buffer = ascii "hello" ∧
        c.parser.state ≠ .Done := by
  refine ⟨post_hello, ?_⟩
  obtain ⟨ts, c, s, run, hc⟩ := exists_turns_of_serve id 1 ({ fd := 4 } : Connection Unit)
    ⟨(postLine :: [lengthLine] ++ [crlf]).flatten ++ ascii "hello", [.ready 99]⟩
    (fun r => (r.1.map Turn.ret, r.2.2.unread, r.2.1.buffer, r.2.1.parser.state))
    (x := ([0], [], ascii "hello", .Body)) (by decide)
  simp only [Prod.mk.injEq] at hc
  obtain ⟨hret, hunread, hbuffer, hstate⟩ := hc
  exact ⟨ts, c, s, run, hret, hunread, hbuffer, by rw [hstate]; decide⟩

end Httpoll.Native.Connection
