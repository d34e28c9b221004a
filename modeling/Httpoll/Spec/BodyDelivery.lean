import Httpoll.Spec.Turns

/-!
# What the handler gets of the body

A chunk of the body leaves `buffer_` in one of two ways. A raw slice goes through
`partial_body_`, where the handler finds it. A line that `PopLine` took off goes to the
parser only: its length is counted, and its bytes are lost.

## Key results

- `deliveryOutline`: what a call does to `partial_body_`
- `Turns.popped_eq_bodyBytes_iff`: the handler gets the body exactly when no line was
  taken off in state `Body`
-/

namespace Httpoll.Native.Connection

open HttpHeaderParser

variable {σ : Type}

/-- The bytes that were pushed in state `Body`. -/
def bodyBytes (log : List Pushed) : Bytes :=
  (chunks (log.filter fun e => e.state = .Body)).flatten

/-- All that the handler was given. -/
def popped (ts : List Turn) : Bytes := (ts.map Turn.popped).flatten

/-- No chunk that was pushed in state `Body` came out of a buffer that held a CRLF. -/
def NoBodyLine (log : List Pushed) : Prop :=
  ∀ e ∈ log, e.state = .Body → ¬ crlf <:+: e.buffer

instance (log : List Pushed) : Decidable (NoBodyLine log) :=
  inferInstanceAs (Decidable (∀ e ∈ log, e.state = .Body → ¬ crlf <:+: e.buffer))

theorem bodyBytes_append (log log' : List Pushed) :
    bodyBytes (log ++ log') = bodyBytes log ++ bodyBytes log' := by
  simp [bodyBytes]

theorem noBodyLine_append (log log' : List Pushed) :
    NoBodyLine (log ++ log') ↔ NoBodyLine log ∧ NoBodyLine log' := by
  simp only [NoBodyLine, List.mem_append, or_imp, forall_and]

theorem bodyBytes_of_no_body {log : List Pushed} (h : ∀ e ∈ log, e.state ≠ .Body) :
    bodyBytes log = [] := by
  have hfilter : log.filter (fun e => e.state = .Body) = [] :=
    List.filter_eq_nil_iff.mpr fun e he => by simpa using h e he
  rw [bodyBytes, hfilter]
  rfl

/-! ## One call -/

/-- What a call that pushed `log` leaves in `partial_body_`, when it was empty before. -/
inductive Delivers (log : List Pushed) (partialBody : Bytes) : Prop where
  /-- Nothing was pushed in state `Body`. -/
  | headers (hlog : ∀ e ∈ log, e.state ≠ .Body) (hpb : partialBody = [])
  /-- One chunk was pushed in state `Body`, at the end: a slice. -/
  | slice (pre : List Pushed) (e : Pushed) (hlog : log = pre ++ [e])
    (hpre : ∀ e ∈ pre, e.state ≠ .Body) (he : e.state = .Body)
    (hcut : Lines.cut CR LF e.buffer = none) (hpb : partialBody = e.chunk)
  /-- One chunk was pushed in state `Body`, at the end: a line. -/
  | line (pre : List Pushed) (e : Pushed) (hlog : log = pre ++ [e])
    (hpre : ∀ e ∈ pre, e.state ≠ .Body) (he : e.state = .Body)
    (hcut : Lines.cut CR LF e.buffer ≠ none) (hne : e.chunk ≠ []) (hpb : partialBody = [])

/-- The outline of a call: before the last push nothing is pushed in state `Body`. -/
theorem deliveryOutline :
    CallOutline (σ := σ) (fun _ => True)
      (fun c _ log => c.partialBody = [] ∧ ∀ e ∈ log, e.state ≠ .Body)
      (fun c _ log => c.partialBody = [] ∧ ∀ e ∈ log, e.state ≠ .Body)
      (fun ret c _ log => Delivers log c.partialBody ∧
        (¬ (ret = 0 ∨ ret = 1) → ∀ e ∈ log, e.state ≠ .Body)) where
  closed _ _ h := ⟨.headers h.2 h.1, fun _ => h.2⟩
  again _ h := ⟨.headers h.2 h.1, fun _ => h.2⟩
  retry h := h
  data _ _ h := h
  exhausted _ h := h
  push {c unread log chunk rest pb p} htakes hp hgo h := by
    -- a push in state `Body` makes the call return
    have hstate : c.parser.state ≠ .Body := by
      intro hs
      rw [pushLine_body hs, Option.some.injEq] at hp
      subst hp
      exact hgo (pushBody_state hs chunk)
    cases htakes with
    | slice _ _ hs => exact absurd hs hstate
    | line hcut =>
      refine ⟨h.1, ?_⟩
      intro e he
      rcases List.mem_append.mp he with he | he
      · exact h.2 e he
      · rw [List.mem_singleton.mp he]
        exact hstate
  stop {c unread log chunk rest pb p} htakes hp hstop h := by
    have hne := htakes.chunk_ne_nil
    have hret : ¬ (stateRet p.state = 0 ∨ stateRet p.state = 1) →
        ∀ e ∈ log ++ [c.pushedOf chunk], e.state ≠ .Body := by
      intro hret
      rcases hstop with hs | hs <;> simp [hs, stateRet] at hret
    refine ⟨?_, hret⟩
    cases htakes with
    | slice hcut _ hs => exact .slice log _ rfl h.2 hs hcut rfl
    | line hcut =>
      by_cases hs : c.parser.state = .Body
      · exact .line log _ rfl h.2 hs (by simp [pushedOf, hcut]) hne h.1
      · refine .headers ?_ h.1
        intro e he
        rcases List.mem_append.mp he with he | he
        · exact h.2 e he
        · rw [List.mem_singleton.mp he]
          exact hs

private theorem noBodyLine_of_no_body {log : List Pushed} (h : ∀ e ∈ log, e.state ≠ .Body) :
    NoBodyLine log :=
  fun e he hs => absurd hs (h e he)

private theorem bodyBytes_last {pre : List Pushed} {e : Pushed}
    (hpre : ∀ e ∈ pre, e.state ≠ .Body) (he : e.state = .Body) :
    bodyBytes (pre ++ [e]) = e.chunk := by
  rw [bodyBytes_append, bodyBytes_of_no_body hpre]
  simp [bodyBytes, chunks, he]

private theorem noBodyLine_last {pre : List Pushed} {e : Pushed}
    (hpre : ∀ e ∈ pre, e.state ≠ .Body) (he : e.state = .Body) :
    NoBodyLine (pre ++ [e]) ↔ Lines.cut CR LF e.buffer = none := by
  rw [noBodyLine_append, Lines.cut_eq_none_iff]
  simp only [noBodyLine_of_no_body hpre, true_and]
  exact ⟨fun h => h e List.mem_cons_self he, fun h e' he' _ => by
    rw [List.mem_singleton.mp he']; exact h⟩

/-- A call hands over all that it pushed of the body, or less when it was a line. -/
theorem Delivers.cases {log : List Pushed} {pb : Bytes} (h : Delivers log pb) :
    NoBodyLine log ∧ pb = bodyBytes log ∨
      ¬ NoBodyLine log ∧ pb.length < (bodyBytes log).length := by
  cases h with
  | headers hlog hpb =>
    exact .inl ⟨noBodyLine_of_no_body hlog, by rw [hpb, bodyBytes_of_no_body hlog]⟩
  | slice pre e hlog hpre he hcut hpb =>
    subst hlog
    exact .inl ⟨(noBodyLine_last hpre he).mpr hcut, by rw [hpb, bodyBytes_last hpre he]⟩
  | line pre e hlog hpre he hcut hne hpb =>
    subst hlog
    refine .inr ⟨fun h => hcut ((noBodyLine_last hpre he).mp h), ?_⟩
    rw [hpb, bodyBytes_last hpre he]
    exact List.length_pos_iff.mpr hne

/-! ## Runs -/

/-- Every turn of a run hands over what its call left in `partial_body_`. -/
theorem Turns.delivers {c₀ c : Connection σ} {s₀ s : Socket} {ts : List Turn}
    (h₀ : c₀.partialBody = []) (run : Turns c₀ s₀ ts c s) (hmove : ∀ t ∈ ts, t.left = []) :
    (∀ t ∈ ts, Delivers t.log t.popped) ∧ c.partialBody = [] := by
  induction run with
  | nil => exact ⟨by simp, h₀⟩
  -- a call that leads to no handler has pushed no part of a body
  | @wait ts c s ret c' s' log run h hret ih =>
    obtain ⟨hall, hpb⟩ := ih fun t ht => hmove t (List.mem_append_left _ ht)
    obtain ⟨hdel, hwait⟩ := (deliveryOutline.returned (fun _ _ => trivial) ⟨hpb, by simp⟩ h).1
    have hlog := hwait (not_or.mpr hret)
    refine ⟨?_, ?_⟩
    · intro t ht
      rcases List.mem_append.mp ht with ht | ht
      · exact hall t ht
      · rw [List.mem_singleton.mp ht]
        exact .headers hlog rfl
    · cases hdel with
      | headers _ hpb => exact hpb
      | slice pre e hlog' _ he _ _ => exact absurd he (hlog e (by simp [hlog']))
      | line _ _ _ _ _ _ _ hpb => exact hpb
  | @handle ts c s ret c' s' log run h hret left ih =>
    obtain ⟨hall, hpb⟩ := ih fun t ht => hmove t (List.mem_append_left _ ht)
    -- the handler gets what this call has put into `partial_body_`, and leaves nothing there
    obtain ⟨hdel, -⟩ := (deliveryOutline.returned (fun _ _ => trivial) ⟨hpb, by simp⟩ h).1
    refine ⟨?_, by simpa using hmove _ (List.mem_append_right _ List.mem_cons_self)⟩
    intro t ht
    rcases List.mem_append.mp ht with ht | ht
    · exact hall t ht
    · rw [List.mem_singleton.mp ht]
      exact hdel

private theorem popped_eq_iff_of_delivers {ts : List Turn}
    (h : ∀ t ∈ ts, Delivers t.log t.popped) :
    (popped ts).length ≤ (bodyBytes (pushes ts)).length ∧
      (popped ts = bodyBytes (pushes ts) ↔ NoBodyLine (pushes ts)) := by
  induction ts with
  | nil => exact ⟨Nat.le_refl _, by simp [popped, pushes, bodyBytes, chunks, NoBodyLine]⟩
  | cons t ts ih =>
    obtain ⟨hle, hiff⟩ := ih fun t ht => h t (List.mem_cons_of_mem _ ht)
    have hpopped : popped (t :: ts) = t.popped ++ popped ts := rfl
    have hbody : bodyBytes (pushes (t :: ts)) = bodyBytes t.log ++ bodyBytes (pushes ts) := by
      rw [← bodyBytes_append]; rfl
    have hline : NoBodyLine (pushes (t :: ts)) ↔ NoBodyLine t.log ∧ NoBodyLine (pushes ts) := by
      rw [← noBodyLine_append]; rfl
    rw [hpopped, hbody, hline]
    rcases (h t List.mem_cons_self).cases with ⟨hno, heq⟩ | ⟨hbad, hlt⟩
    · refine ⟨?_, ?_⟩
      · rw [heq]; simpa using hle
      · rw [heq, List.append_cancel_left_eq, hiff]
        exact ⟨fun hrest => ⟨hno, hrest⟩, fun hboth => hboth.2⟩
    · -- a byte that is lost in one turn is not made up for in another
      refine ⟨by simp only [List.length_append]; omega, ?_, fun hboth => absurd hboth.1 hbad⟩
      intro heq
      have hlen := congrArg List.length heq
      simp only [List.length_append] at hlen
      omega

/-- **What the handler gets.** With a handler that always moves the body out, the strings
    that it is given make up the chunks that were pushed in state `Body` exactly when none
    of these was taken out of a buffer that held a CRLF. -/
theorem Turns.popped_eq_bodyBytes_iff {c₀ c : Connection σ} {s₀ s : Socket} {ts : List Turn}
    (h₀ : c₀.partialBody = []) (run : Turns c₀ s₀ ts c s) (hmove : ∀ t ∈ ts, t.left = []) :
    popped ts = bodyBytes (pushes ts) ↔ NoBodyLine (pushes ts) :=
  (popped_eq_iff_of_delivers (run.delivers h₀ hmove).1).2

/-- A request with a body of four bytes, which come after its headers. -/
def postFour (body : Bytes) : Socket :=
  let headers := ascii "POST / HTTP/1.1" ++ crlf ++ ascii "Content-Length: 4" ++ crlf ++ crlf
  ⟨headers ++ body, [.ready (headers.length - 1), .ready 1, .ready 99]⟩

/-- A body without a line end is handed over in the two pieces that it arrives in. -/
theorem Turns.popped_abcd :
    ∃ ts c s, Turns ({ fd := 4 } : Connection Unit) (postFour (ascii "abcd")) ts c s ∧
      ts.map Turn.popped = [[], ascii "ab", ascii "cd"] ∧
      popped ts = bodyBytes (pushes ts) := by
  obtain ⟨ts, c, s, run, hts⟩ := exists_turns_of_serve (fun _ => []) 3
    ({ fd := 4 } : Connection Unit) (postFour (ascii "abcd"))
    (fun r => (r.1.map Turn.popped, decide (NoBodyLine (pushes r.1)), r.1.map Turn.left))
    (x := ([[], ascii "ab", ascii "cd"], true, [[], [], []])) (by decide)
  simp only [Prod.mk.injEq, decide_eq_true_eq] at hts
  obtain ⟨hpopped, hline, hleft⟩ := hts
  -- `buffer_` is empty after each turn, so none of them ends on a leftover
  have hmove : ∀ t ∈ ts, t.left = [] := by
    intro t ht
    have := List.mem_map_of_mem (f := Turn.left) ht
    simpa [hleft] using this
  exact ⟨ts, c, s, run, hpopped, (run.popped_eq_bodyBytes_iff rfl hmove).mpr hline⟩

/-- The CRLF at the end of a body is lost. -/
theorem Turns.popped_crlf_body :
    ∃ ts c s, Turns ({ fd := 4 } : Connection Unit) (postFour (ascii "ab" ++ crlf)) ts c s ∧
      (∀ t ∈ ts, t.left = []) ∧ popped ts ≠ bodyBytes (pushes ts) := by
  obtain ⟨ts, c, s, run, hts⟩ := exists_turns_of_serve (fun _ => []) 3
    ({ fd := 4 } : Connection Unit) (postFour (ascii "ab" ++ crlf))
    (fun r => (decide (∀ t ∈ r.1, t.left = []), decide (popped r.1 = bodyBytes (pushes r.1))))
    (x := (true, false)) (by decide)
  simp only [Prod.mk.injEq, decide_eq_true_eq, decide_eq_false_iff_not] at hts
  exact ⟨ts, c, s, run, hts⟩

end Httpoll.Native.Connection
