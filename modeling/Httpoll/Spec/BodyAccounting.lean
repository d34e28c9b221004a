import Httpoll.ForStd.Runs
import Httpoll.Spec.BodyCompletion
import Httpoll.Spec.PushLineLoops

/-!
# The count of the body

In state `Body` the parser adds the length of every chunk to a counter of 32 bits and
compares it with the declared length, which was cut to 32 bits as well. The test runs only
when a chunk is pushed.

## Key results

- `body_accounting`: lengths below `2 ^ 31` are counted exactly
- `not_done_early_iff`: the parser may be done early exactly from `2 ^ 32` on
- `empty_body_waits`: a declared length of 0 is never compared with the counter
-/

namespace Httpoll.Native.Connection

open HttpHeaderParser

variable {σ : Type}

/-- The number of bytes in the chunks. -/
def total (cs : List Bytes) : Nat := cs.flatten.length

@[simp] theorem total_nil : total [] = 0 := rfl

@[simp] theorem total_append (cs cs' : List Bytes) : total (cs ++ cs') = total cs + total cs' := by
  simp [total]

@[simp] theorem total_cons (c : Bytes) (cs : List Bytes) :
    total (c :: cs) = c.length + total cs := by
  simp [total]

/-! ## Counting chunks -/

/-- `k` bytes of a body of `n` have been pushed, and the counter has not wrapped. -/
inductive Counting (n k : Nat) (p : HttpHeaderParser) : Prop where
  | body (hstate : p.state = .Body) (hlength : p.contentLength = some (UInt32.ofNat n))
    (hbody : p.bodyLength = UInt32.ofNat k) (hlt : k < n)
  | done (hstate : p.state = .Done) (hge : n ≤ k)

theorem AtBody.counting {n : Nat} {p : HttpHeaderParser} (h : AtBody n p) (hpos : 1 ≤ n) :
    Counting n 0 p :=
  .body h.1 h.2.1 h.2.2 hpos

theorem Counting.done_iff {n k : Nat} {p : HttpHeaderParser} (h : Counting n k p) :
    p.state = .Done ↔ n ≤ k := by
  cases h with
  | body hstate _ _ hlt => simp [hstate, hlt]
  | done hstate hge => simp [hstate, hge]

/-- One chunk. The addition is exact while the body is incomplete. -/
theorem Counting.push {n k : Nat} {p : HttpHeaderParser} {chunk : Bytes} (hn : n < 2 ^ 32)
    (hwrap : k < n → k + chunk.length < 2 ^ 32) (h : Counting n k p) :
    ∃ q, p.pushLine chunk = some q ∧ Counting n (k + chunk.length) q ∧
      (k < n → q.bodyLength.toNat = k + chunk.length) := by
  cases h with
  | done hstate hge =>
    -- after the end nothing changes
    exact ⟨p, pushLine_done hstate chunk, .done hstate (by omega), fun hlt => by omega⟩
  | body hstate hlength hbody hlt =>
    have hsum := hwrap hlt
    have hcmp : UInt32.ofNat (k + chunk.length) ≥ UInt32.ofNat n ↔ n ≤ k + chunk.length :=
      UInt32.ofNat_le_iff_le hn hsum
    refine ⟨p.pushBody chunk, pushLine_body hstate chunk, ?_, fun _ => ?_⟩
    · rw [pushBody_of_length hstate hlength hbody]
      by_cases hge : n ≤ k + chunk.length
      · exact .done (if_pos (hcmp.mpr hge)) hge
      · exact .body (if_neg (mt hcmp.mp hge)) hlength rfl (by omega)
    · rw [pushBody_of_length hstate hlength hbody]
      exact UInt32.toNat_ofNat_of_lt' hsum

/-- A list of chunks of which none makes the counter wrap before the body is complete. -/
theorem Counting.run {n : Nat} {p : HttpHeaderParser} (hn : n < 2 ^ 32) (h : Counting n 0 p)
    {cs : List Bytes}
    (hwrap : ∀ pre c, pre ++ [c] <+: cs → total pre < n → total pre + c.length < 2 ^ 32) :
    ∃ q, cs.foldlM pushLine p = some q ∧ Counting n (total cs) q := by
  induction cs using List.reverseRecOn with
  | nil => exact ⟨p, rfl, h⟩
  | append_singleton cs c ih =>
    obtain ⟨q, hfold, hq⟩ := ih fun pre c' hpre => hwrap pre c' (hpre.trans (List.prefix_append ..))
    obtain ⟨q', hpush, hq', -⟩ := hq.push hn (hwrap cs c (List.prefix_refl _))
    exact ⟨q', by simp [List.foldlM_append, hfold, hpush], by simpa using hq'⟩

/-- **Accounting of a body.** Up to `2 ^ 31` the parser is done exactly when as many bytes as
    declared have been pushed, and the counter has not wrapped until then. -/
theorem body_accounting {n : Nat} {first : Bytes} {hs : List Bytes} {p : HttpHeaderParser}
    (hpos : 1 ≤ n) (hn : n < 2 ^ 31) (hblock : DeclaringBlock n hs)
    (hfold : (first :: hs ++ [crlf]).foldlM pushLine {} = some p) {cs : List Bytes}
    (hcs : ∀ c ∈ cs, c.length ≤ 1024) :
    p.state = .Body ∧ ∀ j ≤ cs.length, ∃ q, (cs.take j).foldlM pushLine p = some q ∧
      (q.state = .Done ↔ n ≤ total (cs.take j)) ∧
      (total (cs.take (j - 1)) < n → q.bodyLength.toNat = total (cs.take j)) := by
  have hmin : min n (2 ^ 63 - 1) = n := Nat.min_eq_left (by omega)
  have hbody : AtBody n p := hmin ▸ hblock.atBody hfold
  have hrun : ∀ i, ∃ q, (cs.take i).foldlM pushLine p = some q ∧
      Counting n (total (cs.take i)) q := by
    intro i
    apply (hbody.counting hpos).run (by omega)
    intro pre c hpre hlt
    have := hcs c ((List.take_subset i cs) (hpre.subset (by simp)))
    omega
  refine ⟨hbody.1, ?_⟩
  intro j hj
  cases j with
  | zero =>
    refine ⟨p, rfl, (hbody.counting hpos).done_iff, fun _ => ?_⟩
    rw [hbody.2.2]
    rfl
  | succ i =>
    -- the last of these chunks
    obtain ⟨q, hq, hcount⟩ := hrun i
    have hlast := List.take_concat_get' cs i hj
    have hchunk := hcs _ (List.getElem_mem hj)
    have hwrap : total (cs.take i) < n → total (cs.take i) + cs[i].length < 2 ^ 32 :=
      fun hlt => by omega
    obtain ⟨q', hpush, hcount', hexact⟩ := hcount.push (by omega) hwrap
    have htotal : total (cs.take (i + 1)) = total (cs.take i) + cs[i].length := by
      rw [← hlast, total_append, total_cons, total_nil, Nat.add_zero]
    rw [htotal]
    refine ⟨q', ?_, hcount'.done_iff, hexact⟩
    rw [← hlast, List.foldlM_append, hq]
    simp [hpush]

private def postFirst : Bytes := ascii "POST / HTTP/1.1" ++ crlf

/-- A Content-Length line. -/
private def sizeLine (digits : String) : Bytes := ascii "Content-Length: " ++ ascii digits ++ crlf

private theorem declaringBlock_of_digits {n : Nat} {digits : String} (hne : ascii digits ≠ [])
    (hdigits : (ascii digits).all isDigit = true) (hval : decimalValue (ascii digits) = n)
    (hline : Lines.IsLine CR LF (sizeLine digits) ∧ sizeLine digits ≠ crlf ∧
      0 ∉ sizeLine digits) : DeclaringBlock n [sizeLine digits] where
  headerLines := by simpa using hline
  declared := ⟨[], _, [], rfl, declaresLength_digits hne hdigits hval, by simp⟩

/-- Five bytes in two chunks. -/
theorem body_accounting_five :
    ∃ p, ([postFirst, sizeLine "5"] ++ [crlf]).foldlM pushLine {} = some p ∧
      p.state = .Body ∧ ∀ j ≤ [ascii "hel", ascii "lo"].length, ∃ q,
        ([ascii "hel", ascii "lo"].take j).foldlM pushLine p = some q ∧
        (q.state = .Done ↔ 5 ≤ total ([ascii "hel", ascii "lo"].take j)) ∧
        (total ([ascii "hel", ascii "lo"].take (j - 1)) < 5 →
          q.bodyLength.toNat = total ([ascii "hel", ascii "lo"].take j)) := by
  obtain ⟨p, hp⟩ := Option.isSome_iff_exists.mp
    (show (([postFirst, sizeLine "5"] ++ [crlf]).foldlM pushLine {}).isSome = true by decide)
  exact ⟨p, hp, body_accounting (by decide) (by decide)
    (declaringBlock_of_digits (by decide) (by decide) (by decide) (by decide)) hp (by decide)⟩

/-! ## Lengths that are cut -/

/-- **A body that is complete early.** Whatever the chunks, the parser is not done before the
    declared number of bytes has been pushed, exactly when that number fits 32 bits. -/
theorem not_done_early_iff {n : Nat} {first : Bytes} {hs : List Bytes} {p : HttpHeaderParser}
    (hpos : 1 ≤ n) (hblock : DeclaringBlock n hs)
    (hfold : (first :: hs ++ [crlf]).foldlM pushLine {} = some p) :
    (∀ cs q, cs.foldlM pushLine p = some q → total cs < n → q.state ≠ .Done) ↔
      n < 2 ^ 32 := by
  have hbody := hblock.atBody hfold
  constructor
  · intro h
    by_contra hge
    -- a chunk with as many bytes as are left of the length when it is cut
    let m := min n (2 ^ 63 - 1)
    let chunk : Bytes := List.replicate (max 1 (m % 2 ^ 32)) 0
    have hlen : chunk.length = max 1 (m % 2 ^ 32) := List.length_replicate
    have hcmp : UInt32.ofNat (0 + chunk.length) ≥ UInt32.ofNat m := by
      have hcut : UInt32.ofNat (m % 2 ^ 32) = UInt32.ofNat m := UInt32.ofNat_mod_size
      have hlt : max 1 (m % 2 ^ 32) < 2 ^ 32 := by omega
      rw [Nat.zero_add, hlen, ← hcut]
      exact (UInt32.ofNat_le_iff_le (Nat.mod_lt m (by decide)) hlt).mpr (Nat.le_max_right ..)
    apply h [chunk] (p.pushBody chunk)
    · simp [pushLine_body hbody.1]
    · rw [total_cons, total_nil, hlen]
      omega
    · rw [pushBody_of_length hbody.1 hbody.2.1 (k := 0) hbody.2.2]
      exact if_pos hcmp
  · intro hn cs q hq hlt hdone
    have hmin : min n (2 ^ 63 - 1) = n := Nat.min_eq_left (by omega)
    have hcounting : Counting n 0 p := (hmin ▸ hbody).counting hpos
    have hrun : ∃ q, cs.foldlM pushLine p = some q ∧ Counting n (total cs) q := by
      apply hcounting.run hn
      rintro pre c ⟨post, rfl⟩ -
      -- all chunks together are shorter than the body
      simp only [total_append, total_cons, total_nil] at hlt
      omega
    obtain ⟨q', hq', hcount⟩ := hrun
    obtain rfl := Option.some.inj (hq.symm.trans hq')
    have := hcount.done_iff.mp hdone
    omega

theorem not_done_early_five :
    ∃ p, ([postFirst, sizeLine "5"] ++ [crlf]).foldlM pushLine {} = some p ∧
      ((∀ cs q, cs.foldlM pushLine p = some q → total cs < 5 → q.state ≠ .Done) ↔
        5 < 2 ^ 32) := by
  obtain ⟨p, hp⟩ := Option.isSome_iff_exists.mp
    (show (([postFirst, sizeLine "5"] ++ [crlf]).foldlM pushLine {}).isSome = true by decide)
  exact ⟨p, hp, not_done_early_iff (by decide)
    (declaringBlock_of_digits (by decide) (by decide) (by decide) (by decide)) hp⟩

/-- A length of `2 ^ 32` is cut to 0, and one byte is enough. -/
theorem done_after_one_byte :
    DeclaringBlock 4294967296 [sizeLine "4294967296"] ∧
      ∃ p q, ([postFirst, sizeLine "4294967296"] ++ [crlf]).foldlM pushLine {} = some p ∧
        p.state = .Body ∧ [ascii "x"].foldlM pushLine p = some q ∧
        total [ascii "x"] < 4294967296 ∧ q.state = .Done := by
  refine ⟨declaringBlock_of_digits (by decide) (by decide) (by decide) (by decide), ?_⟩
  have hrun : ((([postFirst, sizeLine "4294967296"] ++ [crlf]).foldlM pushLine {}).bind fun p =>
      ([ascii "x"].foldlM pushLine p).map fun q => (p.state, q.state)) =
      some (.Body, .Done) := by decide
  obtain ⟨p, hp, hq⟩ := Option.bind_eq_some_iff.mp hrun
  obtain ⟨q, hq, hstates⟩ := Option.map_eq_some_iff.mp hq
  simp only [Prod.mk.injEq] at hstates
  exact ⟨p, q, hp, hstates.1, hq, by decide, hstates.2⟩

/-! ## An empty body -/

/-- Whether `PushLine` returns on a line depends on the state of the parser only. -/
theorem exists_pushLine_of_state {p p' q : HttpHeaderParser} {line : Bytes}
    (hstate : p'.state = p.state) (h : p.pushLine line = some q) :
    ∃ q', p'.pushLine line = some q' := by
  have hreturns : PushLineReturns p line := ⟨_, q, h⟩
  rw [pushLine_terminates_iff, ConnectionValueKnown, ← hstate] at hreturns
  exact Option.isSome_iff_exists.mp
    (pushLineReturns_iff.mp ((pushLine_terminates_iff p' line).mpr hreturns))

/-- The same holds of a block of header lines. -/
theorem exists_foldlM_of_state {hs : List Bytes} {p p' q : HttpHeaderParser}
    (hblank : ∀ l ∈ hs, l ≠ crlf) (hstate : p.state = .Headers) (hstate' : p'.state = .Headers)
    (h : hs.foldlM pushLine p = some q) : ∃ q', hs.foldlM pushLine p' = some q' := by
  induction hs generalizing p p' with
  | nil => exact ⟨p', rfl⟩
  | cons l hs ih =>
    obtain ⟨r, hr, hrest⟩ := Runs.foldlM_cons_eq_some.mp h
    obtain ⟨r', hr'⟩ := exists_pushLine_of_state (hstate'.trans hstate.symm) hr
    have hl := hblank l List.mem_cons_self
    -- a header line does not change the state
    have hs : r.state = .Headers :=
      (pushHeader_frame (pushLine_header hstate hl ▸ hr)).1.trans hstate
    have hs' : r'.state = .Headers :=
      (pushHeader_frame (pushLine_header hstate' hl ▸ hr')).1.trans hstate'
    obtain ⟨q', hq'⟩ := ih (fun l hl => hblank l (List.mem_cons_of_mem _ hl)) hs hs' hrest
    exact ⟨q', Runs.foldlM_cons_eq_some.mpr ⟨r', hr', hq'⟩⟩

/-- A block without a Content-Length line ends the request at the empty line. -/
theorem foldlM_block_done {first : Bytes} {hs : List Bytes} {p q : HttpHeaderParser}
    (hlines : ∀ l ∈ hs, Lines.IsLine CR LF l ∧ l ≠ crlf ∧ 0 ∉ l)
    (hother : ∀ l ∈ hs, ¬ Named kContentLength l) (hstate : p.state = .FirstLine)
    (hlength : p.contentLength = none)
    (hfold : (first :: hs ++ [crlf]).foldlM pushLine p = some q) : q.state = .Done := by
  obtain ⟨p', hp, -, rfl⟩ := exists_of_foldlM_block (fun l hl => (hlines l hl).2.1) hstate hfold
  obtain ⟨-, hlength', -⟩ := foldlM_headers_keep hlines hother rfl hp
  have hnone : p'.contentLength = none := hlength'.trans hlength
  simp [pushBlank, hnone]

/-- A block with a Content-Length line of 0 returns whenever it does without the line. -/
theorem exists_foldlM_block_zero {first line : Bytes} {pre post : List Bytes}
    {q₀ : HttpHeaderParser}
    (hlines : ∀ l ∈ pre ++ line :: post, Lines.IsLine CR LF l ∧ l ≠ crlf ∧ 0 ∉ l)
    (hzero : DeclaresLength 0 line)
    (hfold : (first :: (pre ++ post) ++ [crlf]).foldlM pushLine {} = some q₀) :
    ∃ q, (first :: (pre ++ line :: post) ++ [crlf]).foldlM pushLine {} = some q := by
  have hblankPre : ∀ l ∈ pre, l ≠ crlf := fun l hl => (hlines l (List.mem_append_left _ hl)).2.1
  have hblankPost : ∀ l ∈ post, l ≠ crlf :=
    fun l hl => (hlines l (List.mem_append_right _ (List.mem_cons_of_mem _ hl))).2.1
  obtain ⟨p₂, hp₂, -⟩ :=
    exists_of_foldlM_block (List.forall_mem_append.mpr ⟨hblankPre, hblankPost⟩) rfl hfold
  obtain ⟨p₁, hp₁, hpost⟩ := Runs.foldlM_append_eq_some.mp hp₂
  have hs₁ := foldlM_headers_state hblankPre rfl hp₁
  -- the line itself
  obtain ⟨hl, hne, hnul⟩ := hlines line (List.mem_append_right _ List.mem_cons_self)
  have hline : p₁.pushLine line =
      some (p₁.pushContentLength line (nextChar line 0 (· != SP))) := by
    rw [pushLine_header hs₁ hne, pushHeader,
      (headerKind_eq_contentLength_iff hl hnul).mpr hzero.named]
  have hs₂ : (p₁.pushContentLength line (nextChar line 0 (· != SP))).state = .Headers := hs₁
  -- the lines after it, and the empty line
  obtain ⟨p₃, hp₃⟩ := exists_foldlM_of_state hblankPost hs₁ hs₂ hpost
  have hs₃ := foldlM_headers_state hblankPost hs₂ hp₃
  refine ⟨p₃.pushBlank, foldlM_block rfl hs₃ ?_⟩
  rw [Runs.foldlM_append_of_some hp₁]
  exact Runs.foldlM_cons_eq_some.mpr ⟨_, hline, hp₃⟩

/-- Where a connection is in a stream that ends with the headers. -/
private def AtHeadersEnd (q : HttpHeaderParser) (c : Connection σ) (unread : Bytes) : Prop :=
  HeaderPhase (fun _ => True) (some q) [] c unread ∨
    c.parser.state = .Body ∧ c.buffer ++ unread = []

private theorem AtHeadersEnd.not_done {q : HttpHeaderParser} {c : Connection σ} {unread : Bytes}
    (h : AtHeadersEnd q c unread) : stateRet c.parser.state ≠ 1 := by
  rcases h with ⟨lines, hfeeds, -⟩ | ⟨hs, -⟩
  · rw [stateRet_of_not_stops hfeeds.go]
    decide
  · rw [hs]
    decide

/-- The outline of a call on such a stream: with the body still to come it never returns 1. -/
private theorem headersEndOutline {q : HttpHeaderParser} (hq : q.state = .Body) :
    CallOutline (σ := σ) (fun _ => True) (fun c unread _ => AtHeadersEnd q c unread)
      (fun c unread _ => AtHeadersEnd q c unread)
      (fun ret c unread _ => ret ≠ 1 ∧ AtHeadersEnd q c unread) where
  closed _ _ h := ⟨by decide, h⟩
  again _ h := ⟨h.not_done, h⟩
  retry h := h
  data _ _ h := by
    rcases h with hheaders | ⟨hs, hnil⟩
    · exact .inl hheaders.data
    · exact .inr ⟨hs, by rw [← hnil, List.append_assoc]⟩
  exhausted _ h := h
  push htakes hp hgo h := by
    rcases h with hheaders | ⟨-, hnil⟩
    · exact .inl ((hheaders.push htakes hp).resolve_left fun hstop => hgo hstop.1).2
    -- behind the headers there is nothing left to take
    · rw [htakes.buffer_eq, List.append_assoc, List.append_eq_nil_iff] at hnil
      exact absurd hnil.1 htakes.chunk_ne_nil
  stop htakes hp hstop h := by
    rcases h with hheaders | ⟨-, hnil⟩
    -- the parser stops at the empty line, which is the last one of the stream
    · obtain ⟨-, hlast, hrest⟩ := (hheaders.push htakes hp).resolve_right fun hgo => hgo.1 hstop
      obtain rfl := Option.some.inj hlast
      exact ⟨by rw [hq]; decide, .inr ⟨hq, hrest⟩⟩
    · rw [htakes.buffer_eq, List.append_assoc, List.append_eq_nil_iff] at hnil
      exact absurd hnil.1 htakes.chunk_ne_nil

/-- **An empty body.** The empty line ends a request without a Content-Length line. With a
    length of 0 it never does: the parser waits for a chunk of the body, and no call on a
    stream that ends with the headers returns 1. -/
theorem empty_body_waits {first line : Bytes} {pre post : List Bytes} {q₀ : HttpHeaderParser}
    (hfirst : Lines.IsLine CR LF first)
    (hlines : ∀ l ∈ pre ++ line :: post, Lines.IsLine CR LF l ∧ l ≠ crlf ∧ 0 ∉ l)
    (hother : ∀ l ∈ pre ++ post, ¬ Named kContentLength l) (hzero : DeclaresLength 0 line)
    (hfold : (first :: (pre ++ post) ++ [crlf]).foldlM pushLine {} = some q₀) :
    q₀.state = .Done ∧
      (∃ q, (first :: (pre ++ line :: post) ++ [crlf]).foldlM pushLine {} = some q ∧
        q.state = .Body) ∧
      ∀ {fd : Int} {answers : List Answer} {ts : List Turn} {c : Connection σ} {s : Socket},
        Turns { fd } ⟨(first :: (pre ++ line :: post) ++ [crlf]).flatten, answers⟩ ts c s →
        ∀ t ∈ ts, t.ret ≠ 1 := by
  have hmem : ∀ l ∈ pre ++ post, l ∈ pre ++ line :: post := by
    intro l hl
    rcases List.mem_append.mp hl with hl | hl
    · exact List.mem_append_left _ hl
    · exact List.mem_append_right _ (List.mem_cons_of_mem _ hl)
  -- with the header the parser waits for a body of no bytes in state `Body`
  have hblock : DeclaringBlock 0 (pre ++ line :: post) :=
    ⟨hlines, pre, line, post, rfl, hzero, hother⟩
  obtain ⟨q, hq⟩ := exists_foldlM_block_zero hlines hzero hfold
  have hbody := (hblock.atBody hq).1
  refine ⟨foldlM_block_done (fun l hl => hlines l (hmem l hl)) hother rfl rfl hfold,
    ⟨q, hq, hbody⟩, ?_⟩
  intro fd answers ts c s run
  -- and every call returns there at the latest, as no byte comes that could end the body
  have hfeeds : Feeds (fun _ => True) {} (first :: (pre ++ line :: post) ++ [crlf]) (some q) :=
    hq ▸ .of_block hfirst fun l hl => ⟨(hlines l hl).1, (hlines l hl).2.1⟩
  exact (run.forall_ret (J := fun c unread _ => AtHeadersEnd q c unread) (P := (· ≠ 1))
    (fun _ => headersEndOutline hbody) (fun h => h)
    (.inl ⟨_, hfeeds, by simp⟩)).1

private theorem declaresLength_zero : DeclaresLength 0 (sizeLine "0") :=
  declaresLength_digits (by decide) (by decide) (by decide)

theorem empty_body_waits_post :
    ∃ q₀, ([postFirst] ++ [crlf]).foldlM pushLine {} = some q₀ ∧ q₀.state = .Done ∧
      (∃ q, ([postFirst, sizeLine "0"] ++ [crlf]).foldlM pushLine {} = some q ∧
        q.state = .Body) ∧
      ∀ {fd : Int} {answers : List Answer} {ts : List Turn} {c : Connection Unit} {s : Socket},
        Turns { fd } ⟨([postFirst, sizeLine "0"] ++ [crlf]).flatten, answers⟩ ts c s →
        ∀ t ∈ ts, t.ret ≠ 1 := by
  obtain ⟨q₀, hq₀⟩ := Option.isSome_iff_exists.mp
    (show (([postFirst] ++ [crlf]).foldlM pushLine {}).isSome = true by decide)
  have hlines : ∀ l ∈ [] ++ sizeLine "0" :: [], Lines.IsLine CR LF l ∧ l ≠ crlf ∧ 0 ∉ l := by
    decide
  exact ⟨q₀, hq₀, empty_body_waits (by decide) hlines (by simp) declaresLength_zero hq₀⟩

/-- A request with `Content-Length: 0` that is read to the end is left in state `Body`. -/
theorem empty_body_stranded :
    DeclaresLength 0 (sizeLine "0") ∧
      (([postFirst] ++ [crlf]).foldlM pushLine {}).map HttpHeaderParser.state = some .Done ∧
      (([postFirst, sizeLine "0"] ++ [crlf]).foldlM pushLine {}).map HttpHeaderParser.state =
        some .Body ∧
      ∃ (ts : List Turn) (c : Connection Unit) (s : Socket),
        Turns { fd := 4 } ⟨([postFirst, sizeLine "0"] ++ [crlf]).flatten, [.ready 99]⟩ ts c s ∧
        ts.map Turn.ret = [0] ∧ s.unread = [] ∧ c.buffer = [] ∧ c.parser.state = .Body := by
  refine ⟨declaresLength_zero, by decide, by decide, ?_⟩
  obtain ⟨ts, c, s, run, hc⟩ := exists_turns_of_serve id 1 ({ fd := 4 } : Connection Unit)
    ⟨([postFirst, sizeLine "0"] ++ [crlf]).flatten, [.ready 99]⟩
    (fun r => (r.1.map Turn.ret, r.2.2.unread, r.2.1.buffer, r.2.1.parser.state))
    (x := ([0], [], [], .Body)) (by decide)
  simp only [Prod.mk.injEq] at hc
  exact ⟨ts, c, s, run, hc⟩

end Httpoll.Native.Connection
