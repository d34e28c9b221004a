import Httpoll.ForStd.Runs
import Httpoll.Spec.HeaderSegmentation
import Httpoll.Spec.Session

/-!
# The input buffer

`Read` asks for as many bytes as are missing from `SMALL_MEMORY`, so `buffer_` never holds
more. When nothing is missing, `read(2)` is asked for no bytes, and its answer looks like
the end of the stream.

## Key results

- `buffer_bounded`: the bound on `buffer_`, over runs of all operations that touch it
- `read_eq_neg_one_iff`: a `Read` from a peer that stays connected fails on a full buffer
- `Session.never_closed_iff`: when no segmentation of the stream makes a call fail so
-/

namespace Httpoll.Native

/-- The result of a `read(2)` of at most `len` bytes. -/
def ReadResult.Within (len : Nat) : ReadResult → Prop
  | .data bytes => bytes.length ≤ len
  | .error _ => True

instance (len : Nat) : DecidablePred (ReadResult.Within len) := fun r =>
  match r with
  | .data bytes => inferInstanceAs (Decidable (bytes.length ≤ len))
  | .error _ => inferInstanceAs (Decidable True)

namespace Connection

variable {σ : Type}

/-! ## The bound -/

/-- The operations that touch `buffer_`, with what the environment decides of each. -/
inductive Op (σ : Type) where
  /-- `Connection::Read`, with the result of its `read(2)`. -/
  | read (r : ReadResult)
  | popLine
  /-- `ProcessDataIn`, on this socket. -/
  | processDataIn (s : Socket)
  | upgradeToWebsocket (wsOnMsg : Option (WsHandler σ)) (willCloseHook : Option (WsHook σ))
  /-- `WebsocketConnection::Read`, with the result of its `read(2)`. -/
  | websocketRead (pingPong : Bool) (r : ReadResult) (user : σ)

/-- One operation. There is no next state when `read(2)` cannot have that result, when
    `ProcessDataIn` hangs, or when a frame is read outside of the buffer. A call of
    `ProcessDataIn` that is cut off counts with the state before its next read. -/
def Op.step (c : Connection σ) : Op σ → Option (Connection σ)
  | .read r => if r.Within c.readLen then some (c.read r).2 else none
  | .popLine =>
    match c.popLine with
    | some (_, c') => some c'
    | none => some c
  | .processDataIn s =>
    match c.processDataIn s with
    | some (.returned _ c' _ _) => some c'
    | some (.unfinished c' _ _) => some c'
    | none => none
  | .upgradeToWebsocket wsOnMsg willCloseHook =>
    some (c.upgradeToWebsocket wsOnMsg willCloseHook).2
  | .websocketRead pingPong r user =>
    match c.wsConn with
    | none => none
    | some ws =>
      if r.Within c.readLen then
        match ws.read pingPong c r user with
        | .ok o => some o.conn
        | .error _ => none
      else none

/-- `buffer_` holds no more than `SMALL_MEMORY` bytes. -/
def Bounded (c : Connection σ) : Prop := c.buffer.length ≤ SMALL_MEMORY

/-- Reading keeps the bound. -/
theorem Bounded.append {c : Connection σ} {bytes : Bytes} (h : Bounded c)
    (hle : bytes.length ≤ c.readLen) : Bounded { c with buffer := c.buffer ++ bytes } :=
  length_append_le h hle

theorem Bounded.push {c : Connection σ} {chunk rest pb : Bytes} (h : Bounded c)
    (htakes : c.Takes chunk rest pb) (p : HttpHeaderParser) : Bounded (c.afterPush rest pb p) :=
  Nat.le_trans (Nat.le_of_lt htakes.length_rest_lt) h

theorem read_bounded {c : Connection σ} {r : ReadResult} (h : Bounded c)
    (hr : r.Within c.readLen) : Bounded (c.read r).2 := by
  cases r with
  | data bytes =>
    unfold Connection.read
    dsimp only
    split
    · exact h.append hr
    · exact h
  | error e =>
    unfold Connection.read
    dsimp only
    split
    · exact h
    · split <;> exact h

theorem popLine_bounded {c c' : Connection σ} {line : Bytes} (h : Bounded c)
    (hpop : c.popLine = some (line, c')) : Bounded c' := by
  rw [popLine_eq_cut] at hpop
  obtain ⟨⟨l, rest⟩, hcut, heq⟩ := Option.map_eq_some_iff.mp hpop
  simp only [Prod.mk.injEq] at heq
  obtain ⟨-, rfl⟩ := heq
  -- what is left is a part of the buffer
  have hlen := congrArg List.length (Lines.eq_append_of_cut hcut)
  rw [List.length_append] at hlen
  unfold Bounded at h ⊢
  dsimp only
  omega

/-- Reading and pushing keep the bound. -/
theorem boundedOutline :
    CallOutline (σ := σ) (fun _ => True) (fun c _ _ => Bounded c) (fun c _ _ => Bounded c)
      (fun _ c _ _ => Bounded c) :=
  .ofInvariant (fun _ hle h => h.append hle) (fun htakes _ h => h.push htakes _)

theorem upgradeToWebsocket_buffer (c : Connection σ) (wsOnMsg : Option (WsHandler σ))
    (willCloseHook : Option (WsHook σ)) :
    (c.upgradeToWebsocket wsOnMsg willCloseHook).2.buffer = c.buffer := by
  unfold upgradeToWebsocket
  split
  · rfl
  · split <;> rfl

/-- `WebsocketConnection::Read` fails with `Connection::Read`, or leaves nothing in
    `buffer_`. -/
theorem websocketRead_cases {pingPong : Bool} {ws : WebsocketConnection σ} {c : Connection σ}
    {r : ReadResult} {user : σ} {o : WebsocketConnection.ReadOutcome σ}
    (h : ws.read pingPong c r user = .ok o) :
    ((c.read r).1 < 0 ∧ o.ret = (c.read r).1 ∧ o.conn = (c.read r).2) ∨ o.conn.buffer = [] := by
  unfold WebsocketConnection.read at h
  dsimp only at h
  by_cases hneg : (c.read r).1 < 0
  · rw [if_pos hneg] at h
    cases h
    exact .inl ⟨hneg, rfl, rfl⟩
  · rw [if_neg hneg] at h
    cases hframe : WebsocketConnection.readFrame (c.read r).2.buffer with
    | error f => rw [hframe] at h; cases h
    | ok frame =>
      rw [hframe] at h
      cases h
      -- a frame empties `buffer_`
      obtain ⟨lastPayload, hkept⟩ := Server.handleFrame_conn ws _ user frame
      exact .inr (by rw [hkept])

theorem Op.step_bounded {c c' : Connection σ} {op : Op σ} (h : Bounded c)
    (hstep : Op.step c op = some c') : Bounded c' := by
  cases op with
  | read r =>
    simp only [Op.step, Option.ite_none_right_eq_some, Option.some.injEq] at hstep
    obtain ⟨hr, rfl⟩ := hstep
    -- `Read` asks for no more than there is room for
    exact read_bounded h hr
  | popLine =>
    simp only [Op.step] at hstep
    split at hstep
    · rename_i hpop
      cases hstep
      -- a line that is taken out only makes room
      exact popLine_bounded h hpop
    · cases hstep
      exact h
  | processDataIn s =>
    simp only [Op.step] at hstep
    split at hstep
    · rename_i hcall
      cases hstep
      exact (boundedOutline.returned (fun _ _ => trivial) h hcall).1
    · rename_i hcall
      cases hstep
      -- the run is cut off inside of the call, and the bound holds there as well
      exact boundedOutline.unfinished (fun _ _ => trivial) h hcall
    · cases hstep
  | upgradeToWebsocket wsOnMsg willCloseHook =>
    cases hstep
    unfold Bounded
    rw [upgradeToWebsocket_buffer]
    exact h
  | websocketRead pingPong r user =>
    simp only [Op.step] at hstep
    split at hstep
    · cases hstep
    split at hstep
    · rename_i hr
      split at hstep
      · rename_i o hread
        cases hstep
        -- no frame is read, or all of the buffer goes with it
        rcases websocketRead_cases hread with ⟨-, -, hconn⟩ | hnil
        · rw [hconn]
          exact read_bounded h hr
        · unfold Bounded
          rw [hnil]
          exact Nat.zero_le _
      · cases hstep
    · cases hstep

/-- **The bound on the input buffer.** In every state that these operations lead to, `buffer_`
    holds at most `SMALL_MEMORY` bytes. The subtraction in `Read` does not wrap, and `read(2)`
    is never asked for more than the local buffer holds. -/
theorem buffer_bounded {fd : Int} {ops : List (Op σ)} {c : Connection σ}
    (run : ops.foldlM Op.step { fd } = some c) :
    c.buffer.length ≤ SMALL_MEMORY ∧ c.readLen = SMALL_MEMORY - c.buffer.length ∧
      c.readLen ≤ SMALL_MEMORY := by
  have h : Bounded c := Runs.invariant (I := Bounded) (P := fun _ _ => True)
    (fun _ _ _ hs _ hstep => Op.step_bounded hs hstep) (Nat.zero_le _)
    (Runs.along_of_forall (fun _ _ _ => trivial) _) run
  have hlen := readLen_of_le h
  exact ⟨h, hlen, by omega⟩

/-- A line that is read in two pieces, taken off, and a request after it. -/
theorem buffer_bounded_request :
    ∃ c : Connection Unit,
      [.read (.data (ascii "GET /")), .read (.data (ascii " HTTP/1.1" ++ crlf)), .popLine,
        .processDataIn ⟨ascii "GET / HTTP/1.1" ++ crlf ++ crlf, [.ready 99]⟩].foldlM
          Op.step { fd := 4 } = some c ∧
        c.buffer.length ≤ SMALL_MEMORY ∧ c.readLen = SMALL_MEMORY - c.buffer.length ∧
        c.readLen ≤ SMALL_MEMORY := by
  obtain ⟨c, hc⟩ := Option.isSome_iff_exists.mp
    (show (([.read (.data (ascii "GET /")), .read (.data (ascii " HTTP/1.1" ++ crlf)), .popLine,
      .processDataIn ⟨ascii "GET / HTTP/1.1" ++ crlf ++ crlf, [.ready 99]⟩] :
        List (Op Unit)).foldlM Op.step { fd := 4 }).isSome = true by decide)
  exact ⟨c, hc, buffer_bounded hc⟩

/-! ## A full buffer -/

/-- **One `Read`.** With a peer that stays connected and a socket without an error it fails
    exactly when the buffer is full. -/
theorem read_eq_neg_one_iff {c : Connection σ} (h : Bounded c) {a : Answer} (ha : a.Benign)
    (unread : Bytes) :
    (c.read (a.read unread c.readLen).1).1 = -1 ↔ c.buffer.length = SMALL_MEMORY := by
  have hlen := readLen_of_le h
  unfold Bounded at h
  constructor
  · intro hret
    obtain ⟨ret, c', unread', hread, -, hcases⟩ := read_cases c a unread
    rw [hread] at hret
    rcases hcases with ⟨-, -, -, hzero⟩ | ⟨hzero, -⟩ | ⟨hone, -⟩ | ⟨hone, -⟩
    -- a kernel that is benign gives 0 bytes only when it is asked for 0
    · have := hzero ha
      omega
    · dsimp only at hret
      omega
    · dsimp only at hret
      omega
    · dsimp only at hret
      omega
  · intro hfull
    have hzero : c.readLen = 0 := by omega
    rw [show a.read unread c.readLen = (.data [], unread) from if_pos hzero]
    rfl

/-- No line that the parser takes before it stops is longer than the buffer; `xs` is what it
    has not been fed yet. -/
inductive LinesFit : HttpHeaderParser → Bytes → Prop where
  /-- Nothing but a line that is not complete. -/
  | unended {p xs} (hcut : Lines.cut CR LF xs = none) (hlen : xs.length < SMALL_MEMORY) :
    LinesFit p xs
  /-- A line, and others when the parser goes on after it. -/
  | line {p xs l rest} (hcut : Lines.cut CR LF xs = some (l, rest))
    (hlen : l.length ≤ SMALL_MEMORY)
    (next : ∀ p', p.pushLine l = some p' → ¬ Stops p' → LinesFit p' rest) : LinesFit p xs

/-- The next call of `ProcessDataIn` finds room for all that it waits for. -/
def HasRoom (c : Connection σ) (unread : Bytes) : Prop :=
  c.parser.state = .Body ∨ LinesFit c.parser (c.buffer ++ unread)

theorem LinesFit.of_short {p : HttpHeaderParser} {xs : Bytes} (h : xs.length < SMALL_MEMORY) :
    LinesFit p xs := by
  generalize hn : xs.length = n at h
  induction n using Nat.strongRecOn generalizing p xs with
  | ind n ih =>
    cases hcut : Lines.cut CR LF xs with
    | none => exact .unended hcut (by omega)
    | some q =>
      have hlen := congrArg List.length (Lines.eq_append_of_cut hcut)
      have hpos := List.length_pos_iff.mpr (Lines.isLine_of_cut hcut).ne_nil
      rw [List.length_append] at hlen
      exact .line hcut (by omega) fun p' _ _ => ih q.2.length (by omega) rfl (by omega)

/-- An unfinished line leaves room in the buffer. -/
theorem LinesFit.room {p : HttpHeaderParser} {buffer unread : Bytes}
    (h : LinesFit p (buffer ++ unread)) (hcut : Lines.cut CR LF buffer = none) :
    buffer.length < SMALL_MEMORY := by
  cases h with
  | unended _ hlen =>
    rw [List.length_append] at hlen
    omega
  | line hcut' hlen _ =>
    have := length_lt_of_cut_none (Lines.isLine_of_cut hcut') (Lines.eq_append_of_cut hcut') hcut
    omega

/-- The line that the next round takes. -/
theorem LinesFit.push {c : Connection σ} {unread l rest : Bytes} {p : HttpHeaderParser}
    (hcut : Lines.cut CR LF c.buffer = some (l, rest)) (hp : c.parser.pushLine l = some p)
    (hgo : ¬ Stops p) (h : LinesFit c.parser (c.buffer ++ unread)) :
    LinesFit p (rest ++ unread) := by
  have hcut' := Lines.cut_append unread hcut
  cases h with
  | unended hnone _ => cases hnone.symm.trans hcut'
  | line hcut'' _ next =>
    obtain ⟨rfl, rfl⟩ := Prod.mk.inj (Option.some.inj (hcut''.symm.trans hcut'))
    exact next p hp hgo

/-- A call that has room does not fail. -/
theorem roomOutline :
    CallOutline (σ := σ) Answer.Benign
      (fun c unread _ => c.buffer.length < SMALL_MEMORY ∧ HasRoom c unread)
      (fun c unread _ => Bounded c ∧ HasRoom c unread) (fun ret _ _ _ => ret ≠ -2) where
  closed ha hzero h := by
    have hfull := hzero ha
    rw [readLen_of_le (Nat.le_of_lt h.1)] at hfull
    omega
  again {c _ _} _ _ := by
    cases c.parser.state <;> decide
  retry h := ⟨Nat.le_of_lt h.1, h.2⟩
  data {c _ _ bytes} _ hle h :=
    ⟨Bounded.append (Nat.le_of_lt h.1) hle, by rw [HasRoom, List.append_assoc]; exact h.2⟩
  exhausted {c unread _} hex h := by
    refine ⟨?_, h.2⟩
    rcases hex.2 with hnil | hstate
    · rw [hnil]
      decide
    · exact (h.2.resolve_left hstate).room hex.1
  push {c unread log chunk rest pb p} htakes hp hgo h := by
    refine ⟨h.1.push htakes p, .inr ?_⟩
    -- in state `Body` the call would have returned
    have hstate : c.parser.state ≠ .Body := by
      intro hs
      rw [HttpHeaderParser.pushLine_body hs, Option.some.injEq] at hp
      subst hp
      exact hgo (HttpHeaderParser.pushBody_state hs chunk)
    cases htakes with
    | line hcut => exact (h.2.resolve_left hstate).push hcut hp hgo
    | slice _ _ hs => exact absurd hs hstate
  stop {_ _ _ _ _ _ p} _ _ _ _ := by
    cases p.state <;> decide

/-! ## Lines that are too long -/

/-- The inner loop on a line that is too long takes the lines before it, and waits. -/
theorem drain_of_not_linesFit {c : Connection σ} {unread : Bytes} (log : List Pushed)
    (hb : Bounded c) (hstate : c.parser.state ≠ .Body)
    (h : ¬ LinesFit c.parser (c.buffer ++ unread)) :
    ∃ c' log', c.drain log = some (.exhausted c' log') ∧ Bounded c' ∧
      c'.parser.state ≠ .Body ∧ ¬ LinesFit c'.parser (c'.buffer ++ unread) := by
  simp only [drain_eq_some_iff]
  -- induction on the buffer, which every round shortens
  generalize hn : c.buffer.length = n
  induction n using Nat.strongRecOn generalizing c log with
  | ind n ih =>
    rcases c.exhausted_or_takes with hex | ⟨chunk, rest, pb, htakes⟩
    · exact ⟨c, log, .of_done (drainBody_exhausted log hex), hb, hstate, h⟩
    have hbuffer := congrArg List.length htakes.buffer_eq
    have hshorter := htakes.length_rest_lt
    have hbody := drainBody_takes log htakes
    rw [List.length_append] at hbuffer
    cases htakes with
    | slice _ _ hs => exact absurd hs hstate
    | line hcut =>
      -- this line fits, so the parser goes on to one that does not
      have hnext : ∃ p, c.parser.pushLine chunk = some p ∧ ¬ Stops p ∧
          ¬ LinesFit p (rest ++ unread) := by
        by_contra hall
        refine h (.line (Lines.cut_append unread hcut) (Nat.le_trans (by omega) hb) ?_)
        intro p hp hgo
        by_contra hlong
        exact hall ⟨p, hp, hgo, hlong⟩
      obtain ⟨p, hp, hgo, hlong⟩ := hnext
      rw [hp, Option.map_some, if_neg hgo] at hbody
      have hrest : Bounded (c.afterPush rest c.partialBody p) := hb.push (.line hcut) p
      obtain ⟨c', log', hrun, hc'⟩ :=
        ih rest.length (by omega) _ hrest (fun hs => hgo (.inr hs)) hlong rfl
      exact ⟨c', log', .of_next hbody hrun, hc'⟩

/-- A call that reads as much as it can reaches the line that is too long, and fails. -/
theorem processDataInFrom_of_not_linesFit {c : Connection σ} {unread : Bytes}
    (log : List Pushed) {n : Nat} (hb : Bounded c) (hstate : c.parser.state ≠ .Body)
    (h : ¬ LinesFit c.parser (c.buffer ++ unread)) (hn : unread.length < n) :
    ∃ c' s' log', processDataInFrom (List.replicate n (.ready SMALL_MEMORY)) c unread log =
      some (.returned (-2) c' s' log') := by
  induction n generalizing c unread log with
  | zero => omega
  | succ n ih =>
    rw [List.replicate_succ]
    by_cases hzero : c.readLen = 0
    · -- the buffer is full
      have hread : Answer.read (.ready SMALL_MEMORY) unread c.readLen = (.data [], unread) :=
        if_pos hzero
      refine ⟨c, ⟨unread, List.replicate n (.ready SMALL_MEMORY)⟩, log, ?_⟩
      simp only [processDataInFrom, hread, Connection.read, List.length_nil, gt_iff_lt,
        Nat.lt_irrefl, if_false, if_true]
    have hlen := readLen_of_le hb
    have hne : unread ≠ [] := by
      rintro rfl
      exact h (.of_short (by rw [List.append_nil]; omega))
    let bytes := unread.take (min (SMALL_MEMORY + 1) c.readLen)
    let rest := unread.drop (min (SMALL_MEMORY + 1) c.readLen)
    have hread : Answer.read (.ready SMALL_MEMORY) unread c.readLen = (.data bytes, rest) := by
      simp only [Answer.read, hzero, hne, if_false, bytes, rest]
    have hsplit : bytes ++ rest = unread := List.take_append_drop ..
    have hbytes : 0 < bytes.length := by
      rw [List.length_take]
      have := List.length_pos_iff.mpr hne
      omega
    have hle : bytes.length ≤ c.readLen := by
      rw [List.length_take]
      omega
    have hshort := congrArg List.length hsplit
    rw [List.length_append] at hshort
    have hb₁ : Bounded { c with buffer := c.buffer ++ bytes } := hb.append hle
    have h₁ : ¬ LinesFit c.parser (c.buffer ++ bytes ++ rest) := by
      rw [List.append_assoc, hsplit]
      exact h
    obtain ⟨c', log', hdrain, hb', hstate', hlong⟩ := drain_of_not_linesFit log hb₁ hstate h₁
    obtain ⟨c'', s'', log'', hcall⟩ := ih log' hb' hstate' hlong (by omega)
    refine ⟨c'', s'', log'', ?_⟩
    simp only [processDataInFrom, hread, Connection.read, gt_iff_lt, hbytes, if_true,
      show ¬ (1 : Int) = -1 from by decide, show ¬ (1 : Int) = 0 from by decide, if_false,
      hdrain, hcall]

/-- A call either fails or leaves room in the buffer. -/
theorem processDataIn_room {c c' : Connection σ} {s s' : Socket} {ret : Int} {log : List Pushed}
    (hb : Bounded c) (h : c.processDataIn s = some (.returned ret c' s' log)) :
    ret = -2 ∨ c'.buffer.length < SMALL_MEMORY := by
  have o : CallOutline (σ := σ) (fun _ => True) (fun c _ _ => Bounded c) (fun c _ _ => Bounded c)
      (fun ret c _ _ => ret = -2 ∨ c.buffer.length < SMALL_MEMORY) := {
    closed := fun _ _ _ => .inl rfl
    again := fun hlen hb => by
      -- a full buffer would have made `read(2)` return 0
      rw [readLen_of_le hb] at hlen
      exact .inr (by omega)
    retry := id
    data := fun _ hle hb => hb.append hle
    exhausted := fun _ hb => hb
    push := fun htakes _ _ hb => hb.push htakes _
    stop := fun htakes _ _ hb => .inr (Nat.lt_of_lt_of_le htakes.length_rest_lt hb) }
  exact (o.returned (fun _ _ => trivial) hb h).1

/-- What a call returns, when it does. -/
def CallResult.ret? : CallResult σ → Option Int
  | .returned ret _ _ _ => some ret
  | .unfinished .. => none

end Connection

namespace Server

open Connection

variable {σ : Type} {regexMatch : Bytes → Bytes → Option Bool} {pingPong : Bool}

/-! ## Events -/

/-- An event that does not close the connection leaves room in its buffer. -/
theorem pollEvent_room {table : HandlerTable σ} {c c' : Connection σ} {s s' : Socket}
    {user user' : σ} {effects : List Effect} (hb : c.buffer.length < SMALL_MEMORY)
    (h : pollEvent regexMatch pingPong table c s user =
      some (.served ⟨some c', user', effects⟩ s')) : c'.buffer.length < SMALL_MEMORY := by
  have hserved := pollEvent_served h
  generalize hr : (⟨some c', user', effects⟩ : Served σ) = r at hserved
  have hc : r.conn = some c' := by rw [← hr]
  cases hserved with
  | websocket _ _ hread =>
    -- `WebsocketConnection::Read` empties the buffer
    obtain ⟨hret, rfl⟩ := afterRead_eq_some hc
    rcases websocketRead_cases hread with ⟨hneg, heq, -⟩ | hnil
    · exact absurd (heq.trans (eq_neg_one_of_read rfl hneg)) hret
    · rw [hnil]
      decide
  | failed => cases hc
  | @dispatched ret _ _ hdisp _ hr =>
    obtain ⟨log, hcall⟩ := hdisp.call
    have hret := hdisp.ret_eq
    have hroom := (processDataIn_room (Nat.le_of_lt hb) hcall).resolve_left (by omega)
    -- the dispatch does not touch the buffer
    rcases dispatch_conn hr hc with ⟨ws, rfl⟩ | ⟨left, rfl⟩
    · exact hroom
    · exact hroom
  | incomplete _ _ hcall hopen =>
    obtain rfl := Option.some.inj hc
    exact (processDataIn_room (Nat.le_of_lt hb) hcall).resolve_left hopen

theorem Session.room {c₀ c : Connection σ} {s₀ s : Socket} (h₀ : c₀.buffer.length < SMALL_MEMORY)
    (run : Session regexMatch pingPong c₀ s₀ c s) : c.buffer.length < SMALL_MEMORY := by
  induction run with
  | nil => exact h₀
  | event run table user h ih => exact pollEvent_room ih h

/-- However the kernel cuts the stream into reads, no `Read` of the next event fails, as long
    as the peer stays connected and the socket has no error. -/
def NeverClosed (c : Connection σ) (unread : Bytes) : Prop :=
  (c.wsConn.isSome = true → ∀ a : Answer, a.Benign →
    (c.read (a.read unread c.readLen).1).1 ≠ -1) ∧
  (c.wsConn = none → ∀ answers : List Answer, (∀ a ∈ answers, a.Benign) →
    ∀ ret c' s' log, c.processDataIn ⟨unread, answers⟩ = some (.returned ret c' s' log) →
      ret ≠ -2)

/-- **A full buffer.** Take any state that the events of a connection lead to. A connection
    that was upgraded always has room in its buffer. On any other, no segmentation of the
    stream makes `ProcessDataIn` fail exactly when the parser is in state `Body`, or no line
    that it still takes is longer than the buffer. -/
theorem Session.never_closed_iff {fd : Int} {stream : Bytes} {answers : List Answer}
    {c : Connection σ} {s : Socket}
    (run : Session regexMatch pingPong { fd } ⟨stream, answers⟩ c s) :
    NeverClosed c s.unread ↔ (c.wsConn = none → HasRoom c s.unread) := by
  have h₀ : ({ fd } : Connection σ).buffer.length < SMALL_MEMORY := Nat.succ_pos 1023
  have hroom := run.room h₀
  have hb : Bounded c := Nat.le_of_lt hroom
  constructor
  · intro h hplain
    by_contra hlong
    obtain ⟨hstate, hlong⟩ := not_or.mp hlong
    -- a kernel that always offers more than is asked for
    obtain ⟨c', s', log', hcall⟩ :=
      processDataInFrom_of_not_linesFit [] hb hstate hlong (Nat.lt_succ_self s.unread.length)
    refine h.2 hplain (List.replicate (s.unread.length + 1) (.ready SMALL_MEMORY)) ?_ _ c' s' log'
      hcall rfl
    intro a ha
    rw [List.eq_of_mem_replicate ha]
    trivial
  · intro h
    refine ⟨?_, ?_⟩
    · intro _ a ha hret
      have := (read_eq_neg_one_iff hb ha s.unread).mp hret
      omega
    · intro hplain answers ha ret c' s' log hcall
      exact (roomOutline.returned (s := ⟨s.unread, answers⟩) ha ⟨hroom, h hplain⟩ hcall).1

/-- The first half of a request line is left in the buffer, and there is room for the rest. -/
theorem never_closed_short_request :
    ∃ (c : Connection Unit) (s : Socket),
      Session (fun _ _ => none) true { fd := 4 }
        ⟨ascii "GET / HTTP/1.1" ++ crlf ++ crlf, [.ready 7, .fail .EAGAIN]⟩ c s ∧
      c.buffer = ascii "GET / HT" ∧ s.unread = ascii "TP/1.1" ++ crlf ++ crlf ∧
      NeverClosed c s.unread := by
  let s : Socket := ⟨ascii "TP/1.1" ++ crlf ++ crlf, []⟩
  let c : Connection Unit := { fd := 4, buffer := ascii "GET / HT" }
  have run : Session (fun _ _ => none) true ({ fd := 4 } : Connection Unit)
      ⟨ascii "GET / HTTP/1.1" ++ crlf ++ crlf, [.ready 7, .fail .EAGAIN]⟩ c s :=
    Session.nil.event .empty () rfl
  exact ⟨c, s, run, rfl, rfl, run.never_closed_iff.mpr fun _ => .inr (.of_short (by decide))⟩

/-- A header line of more than `SMALL_MEMORY` bytes. -/
private def longLine : Bytes := ascii "X: " ++ List.replicate 1100 120 ++ crlf

/-- A long header line of a peer that stays connected makes `ProcessDataIn` fail. -/
theorem long_line_closes :
    Lines.IsLine CR LF longLine ∧ SMALL_MEMORY < longLine.length ∧
      ∃ answers : List Answer, (∀ a ∈ answers, a.Benign) ∧
        ∃ c' s' log, ({ fd := 4 } : Connection Unit).processDataIn
          ⟨ascii "GET / HTTP/1.1" ++ crlf ++ longLine ++ crlf, answers⟩ =
            some (.returned (-2) c' s' log) := by
  refine ⟨by decide +kernel, by decide +kernel, [.ready 1023, .ready 1023, .ready 1023],
    by decide, ?_⟩
  have hret : (({ fd := 4 } : Connection Unit).processDataIn
      ⟨ascii "GET / HTTP/1.1" ++ crlf ++ longLine ++ crlf,
        [.ready 1023, .ready 1023, .ready 1023]⟩).bind CallResult.ret? = some (-2) := by
    decide +kernel
  obtain ⟨r, hcall, hr⟩ := Option.bind_eq_some_iff.mp hret
  cases r with
  | returned ret c' s' log =>
    obtain rfl := Option.some.inj hr
    exact ⟨c', s', log, hcall⟩
  | unfinished c' unread log => cases hr

end Server

end Httpoll.Native
