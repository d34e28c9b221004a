import Httpoll.Spec.Pings
import Httpoll.Spec.PollWrites

/-!
# What a client reads of the server

All that `Poll` hands to `write(2)` for a connection: the pings with which it begins, and what
the events of the connection write. `Times` says when a connection is pinged; here it is enough
that a ping is a whole frame, and that it comes between two events of a connection that was
upgraded.

## Key results

- `timedStep_marks`: what the pings of a call write to a connection
- `OnWire.call`: what a call adds to the bytes of a connection
- `client_reads`: in every run, what `Poll` hands to `write(2)` for a connection is nothing, or one
  response 404, or one response 101 with the right accept key and whole pings and pongs behind it
-/

namespace Httpoll.Native

/-! ## The bytes that are written -/

/-- What `ServerPing` hands to `write(2)` for a connection. -/
def pingWrites (marks : List Mark) (id : Nat) : Bytes :=
  marks.flatMap fun
    | .ping id' _ buffers => if id' = id then buffers.flatten else []
    | .io .. | .pingWrite .. => []

namespace Server

open Connection WebsocketConnection

section Writing

variable (sha1 : Bytes → Vector UInt8 SHA_DIGEST_LENGTH)
  (hash : Vector UInt8 (SHA_DIGEST_LENGTH * 2))

/-- What was handed to `write(2)` for a connection after a call that has taken the server from
    `t` to `t'`. `Poll` pings before it serves events. -/
def writtenBy {σ : Type} (t t' : TimedServer σ) (id : Nat) (sent : Bytes) : Option Bytes :=
  (effectsOf (t'.server.log.drop t.server.log.length) id).foldlM (pollWrite sha1 hash)
    (sent ++ pingWrites (t'.marks.drop t.marks.length) id)

/-- The server, and what it has handed to `write(2)` for each connection; `none` when it goes
    down on the way. -/
structure WritingServer (σ : Type) where
  timed : TimedServer σ
  written : (id : Nat) → Option Bytes := fun _ => some []

/-- One call. -/
def writingStep {σ : Type} (regexMatch : (pattern text : Bytes) → Option Bool)
    (w : WritingServer σ) (call : TimedCall σ) : Option (WritingServer σ) :=
  (timedStep regexMatch w.timed call).map fun timed =>
    { timed, written := fun id => (w.written id).bind (writtenBy sha1 hash w.timed timed id) }

end Writing

variable {σ : Type} {regexMatch : Bytes → Bytes → Option Bool}
  {sha1 : Bytes → Vector UInt8 SHA_DIGEST_LENGTH} {hash : Vector UInt8 (SHA_DIGEST_LENGTH * 2)}
  {t t' t'' : TimedServer σ} {id : Nat}

/-! ## The pings of a call -/

/-- The marks of `t'` are those of `t`, and some that meet `P`. -/
def MoreMarks (P : List Mark → Prop) (t t' : TimedServer σ) : Prop :=
  ∃ more, t'.marks = t.marks ++ more ∧ P more

/-- The marks of an event. -/
def NoPing (marks : List Mark) : Prop := ∀ m ∈ marks, m.isPing = false

/-- The marks of whole pings, if the connection is a WebSocket connection of `s`, and others. -/
def Pinging (s : ServerState σ) (id : Nat) (marks : List Mark) : Prop :=
  ∃ n, pingWrites marks id = (List.replicate n (wsFrame [] .kTypePing)).flatten ∧
    (n ≠ 0 → ∃ c, s.client? id = some c ∧ c.conn.wsConn.isSome = true)

private theorem pingWrites_append (marks marks' : List Mark) (id : Nat) :
    pingWrites (marks ++ marks') id = pingWrites marks id ++ pingWrites marks' id :=
  List.flatMap_append

theorem NoPing.pinging {marks : List Mark} (h : NoPing marks) (s : ServerState σ) (id : Nat) :
    Pinging s id marks := by
  refine ⟨0, ?_, fun hn => absurd rfl hn⟩
  -- marks of inputs and outputs write nothing by themselves
  apply List.flatMap_eq_nil_iff.mpr
  intro m hm
  have hping := h m hm
  cases m with
  | io id' time | pingWrite id' time => rfl
  | ping id' time buffers => cases hping

theorem Pinging.append {s : ServerState σ} {marks marks' : List Mark} (h : Pinging s id marks)
    (h' : Pinging s id marks') : Pinging s id (marks ++ marks') := by
  obtain ⟨n, hwrites, hclient⟩ := h
  obtain ⟨n', hwrites', hclient'⟩ := h'
  refine ⟨n + n', ?_, ?_⟩
  · rw [pingWrites_append, hwrites, hwrites', ← List.flatten_append,
      List.replicate_append_replicate]
  · intro hn
    -- one of the two parts has a ping
    by_cases hzero : n = 0
    · exact hclient' (by omega)
    · exact hclient hzero

namespace MoreMarks

variable {P : List Mark → Prop}

theorem of_eq (hP : P []) (h : t'.marks = t.marks) : MoreMarks P t t' :=
  ⟨[], by rw [h, List.append_nil], hP⟩

theorem trans (hP : ∀ marks marks', P marks → P marks' → P (marks ++ marks'))
    (h : MoreMarks P t t') (h' : MoreMarks P t' t'') : MoreMarks P t t'' := by
  obtain ⟨more, hmore, hp⟩ := h
  obtain ⟨more', hmore', hp'⟩ := h'
  exact ⟨more ++ more', by rw [hmore', hmore, List.append_assoc], hP _ _ hp hp'⟩

end MoreMarks

private theorem noPing_nil : NoPing [] := fun _ hm => absurd hm List.not_mem_nil

private theorem noPing_append (marks marks' : List Mark) (h : NoPing marks) (h' : NoPing marks') :
    NoPing (marks ++ marks') := List.forall_mem_append.mpr ⟨h, h'⟩

private theorem marks_touch (t : TimedServer σ) (id elapsed : Nat) :
    MoreMarks NoPing t (t.touch id elapsed) :=
  ⟨[_], rfl, List.forall_mem_singleton.mpr rfl⟩

private theorem marks_writeAll (t : TimedServer σ) (writes : List (Nat × Nat)) :
    MoreMarks NoPing t (writeAll t writes) := by
  unfold writeAll
  induction writes generalizing t with
  | nil => exact .of_eq noPing_nil rfl
  | cons write writes ih =>
    rw [List.foldl_cons]
    split
    · exact (marks_touch t write.1 write.2).trans noPing_append (ih _)
    · exact ih (t.now write.2)

variable (regexMatch) in
private theorem marks_timesAfter (t : TimedServer σ) (e : TimedEvent σ) (s : ServerState σ) :
    MoreMarks NoPing t (timesAfter regexMatch t e s) := by
  unfold timesAfter
  cases e.event with
  | server answer => exact .of_eq noPing_nil rfl
  | client ce =>
    dsimp only
    -- the time of the connection itself, and that of a pong
    have hself : MoreMarks NoPing t (if setsTime regexMatch t.server ce then
        TimedServer.touch { t with server := s } ce.id e.elapsed
        else TimedServer.now { t with server := s } e.elapsed) := by
      split
      · exact marks_touch { t with server := s } ce.id e.elapsed
      · exact .of_eq noPing_nil rfl
    generalize (if setsTime regexMatch t.server ce then
        TimedServer.touch { t with server := s } ce.id e.elapsed
        else TimedServer.now { t with server := s } e.elapsed) = t₁ at hself ⊢
    have hpong : MoreMarks NoPing t (if ((s.log.drop t.server.log.length).map Prod.snd).any
        Effect.isWrite then t₁.touch ce.id e.pongElapsed else t₁) := by
      split
      · exact hself.trans noPing_append (marks_touch t₁ ce.id e.pongElapsed)
      · exact hself
    split
    · exact hpong.trans noPing_append (marks_writeAll _ e.writes)
    · exact hpong

/-- The loop over the events. -/
private theorem marks_events {events : List (TimedEvent σ)}
    (hevents : (match events.foldlM (pollOneTimed regexMatch) t with
      | .ok t => some t
      | .error t => t) = some t') : MoreMarks NoPing t t' := by
  induction events generalizing t with
  | nil =>
    cases hevents
    exact .of_eq noPing_nil rfl
  | cons e events ih =>
    rw [List.foldlM_cons] at hevents
    unfold pollOneTimed at hevents
    cases hone : pollOne regexMatch true t.server e.event with
    | ok s =>
      rw [hone] at hevents
      exact (marks_timesAfter regexMatch t e s).trans noPing_append (ih hevents)
    | error exit =>
      rw [hone] at hevents
      -- `Poll` returns early when `epoll_ctl(2)` fails for a new connection
      cases exit with
      | returned ret s =>
        cases hevents
        exact .of_eq noPing_nil rfl
      | dangling id => cases hevents
      | down => cases hevents

private theorem marks_pingOne {s : ServerState σ} {c : Client σ} (hc : s.client? c.id = some c)
    (hfd : c.conn.fd ≠ -1) (t : TimedServer σ) (d : TimedServer.PingDelays) (id : Nat) :
    MoreMarks (Pinging s id) t (t.pingOne c d) := by
  have hnone : MoreMarks (Pinging s id) t t := .of_eq (noPing_nil.pinging s id) rfl
  unfold TimedServer.pingOne TimedServer.serverPing
  dsimp only
  split
  · rename_i hws
    split
    · refine ⟨[_, _], List.append_assoc _ _ _, ?_⟩
      -- the header and an empty payload
      have hwrite : WebsocketConnection.write c.conn .kTypePing [] =
          [makeWebsocketHeader 0 .kTypePing, []] := if_neg hfd
      by_cases hid : c.id = id
      · subst hid
        refine ⟨1, ?_, fun _ => ⟨c, hc, hws⟩⟩
        simp [pingWrites, hwrite, wsFrame]
      · refine ⟨0, ?_, fun hn => absurd rfl hn⟩
        simp [pingWrites, hid]
    · exact hnone
  · exact hnone

/-- The loop over the connections, by induction on them. -/
private theorem marks_pingAll (h : Inv t.server) (delays : Nat → TimedServer.PingDelays)
    (id : Nat) : MoreMarks (Pinging t.server id) t (t.pingAll delays) := by
  have hall : ∀ c ∈ t.server.pendingConns, t.server.client? c.id = some c ∧ c.conn.fd ≠ -1 := by
    intro c hc
    have hfd : 0 ≤ c.conn.fd := (h.opened c hc).1
    exact ⟨h.client?_of_mem hc, by omega⟩
  unfold TimedServer.pingAll
  -- the clients stay those of the server at the beginning, while the times go on
  clear h
  generalize t.server.pendingConns = clients at hall ⊢
  generalize t.server = s at hall ⊢
  induction clients generalizing t with
  | nil => exact .of_eq (noPing_nil.pinging s id) rfl
  | cons c clients ih =>
    obtain ⟨hfirst, hrest⟩ := List.forall_mem_cons.mp hall
    have hone := marks_pingOne hfirst.1 hfirst.2 t (delays c.id) id
    exact hone.trans (fun _ _ => Pinging.append) (ih hrest)

/-- **The pings of a call.** -/
theorem timedStep_marks (h : Inv t.server) {call : TimedCall σ}
    (hstep : timedStep regexMatch t call = some t') (id : Nat) :
    MoreMarks (Pinging t.server id) t t' := by
  have hnil := noPing_nil.pinging t.server id
  cases call with
  | registerRequestHandler uri handler =>
    cases hstep
    exact .of_eq hnil rfl
  | closeConn id' del =>
    cases hstep
    exact .of_eq hnil rfl
  | write id' elapsed =>
    cases hstep
    obtain ⟨more, hmore, hno⟩ := marks_writeAll t [(id', elapsed)]
    exact ⟨more, hmore, hno.pinging t.server id⟩
  | poll p =>
    -- only the pass over the connections before `epoll_wait(2)` pings
    have hpings := marks_pingAll (t := { t.now p.before with lastPass := (t.now p.before).clock })
      h p.delays id
    unfold timedStep pollTimed at hstep
    dsimp only at hstep
    cases hevents : p.events with
    | none =>
      rw [hevents] at hstep
      cases hstep
      exact hpings
    | some events =>
      rw [hevents] at hstep
      obtain ⟨more, hmore, hno⟩ := marks_events hstep
      exact hpings.trans (fun _ _ => Pinging.append) ⟨more, hmore, hno.pinging t.server id⟩

/-! ## Calls -/

/-- The messages that the server sends of itself: pongs, and empty pings. -/
def IsControl (m : WsFrameType × Bytes) : Prop := m.1 = .kTypePong ∨ m = (.kTypePing, [])

/-- What is logged over several calls comes behind what was logged before. -/
private theorem log_isPrefix_run {pingPong : Bool} {s s' : ServerState σ} {calls : List (Call σ)}
    (hrun : calls.foldlM (step regexMatch pingPong) s = some s') : s.log <+: s'.log :=
  Runs.invariant (I := fun s' => s.log <+: s'.log) (P := fun _ _ => True)
    (fun _ _ _ h _ hstep => h.trans (log_isPrefix hstep)) (List.prefix_refl _)
    (Runs.along_of_forall (fun _ _ _ => trivial) _) hrun

/-- The same frame, written several times to a WebSocket connection between two events. -/
theorem OnWire.frames {effects : List Effect} {messages : List (WsFrameType × Bytes)}
    {bytes : Bytes} (h : OnWire sha1 true effects messages bytes) {s : ServerState σ}
    (hsending : Sending true ((s.client? id).map Client.conn) effects) {data : Bytes}
    (hlen : data.length < 0xffff) (type : WsFrameType) {n : Nat}
    (hclient : n ≠ 0 → ∃ c, s.client? id = some c ∧ c.conn.wsConn.isSome = true) :
    OnWire sha1 true effects (messages ++ List.replicate n (type, data))
      (bytes ++ (List.replicate n (wsFrame data type)).flatten) := by
  induction n with
  | zero =>
    rw [List.replicate_zero, List.replicate_zero, List.flatten_nil, List.append_nil,
      List.append_nil]
    exact h
  | succ n ih =>
    obtain ⟨c, hc, hws⟩ := hclient (Nat.succ_ne_zero n)
    -- all but the last one, and then the last one
    have hbefore := ih fun _ => ⟨c, hc, hws⟩
    rw [hc] at hsending
    have hframe := hbefore.frame hsending hws hlen type
    rw [List.append_assoc, ← List.replicate_succ'] at hframe
    rw [List.replicate_succ' (a := wsFrame data type), List.flatten_concat, ← List.append_assoc]
    exact hframe

variable (hash) in
/-- **One call.** -/
theorem OnWire.call {messages : List (WsFrameType × Bytes)} {bytes : Bytes}
    (h : OnWire sha1 true (effectsOf t.server.log id) messages bytes)
    (haccount : Accounted (Sending true) id t.server) {call : TimedCall σ}
    (hstep : timedStep regexMatch t call = some t')
    (haccount' : Accounted (Sending true) id t'.server) :
    ∃ sent added, writtenBy sha1 hash t t' id bytes = some sent ∧ (∀ m ∈ added, IsControl m) ∧
      OnWire sha1 true (effectsOf t'.server.log id) (messages ++ added) sent := by
  obtain ⟨marks, hmarks, n, hwrites, hclient⟩ := timedStep_marks haccount.clients hstep id
  have hserver := timedStep_untimed hstep
  obtain ⟨more, hmore⟩ := log_isPrefix_run hserver
  have hlog : effectsOf t'.server.log id = effectsOf t.server.log id ++ effectsOf more id := by
    rw [← hmore, effectsOf_append]
  -- first the pings, then what the events write
  have hpinged := h.frames haccount.account (show ([] : Bytes).length < 0xffff by decide)
    .kTypePing hclient
  have hsending := haccount'.account
  rw [hlog] at hsending ⊢
  obtain ⟨sent, pongs, hsent, hpongs, h'⟩ := hpinged.more hash hsending
  refine ⟨sent, List.replicate n (.kTypePing, []) ++ pongs, ?_, ?_, ?_⟩
  · unfold writtenBy
    -- what is new among the marks and in the log is what this call has added
    rw [hmarks, List.drop_left, hwrites, ← hmore, List.drop_left]
    exact hsent
  · intro m hm
    rcases List.mem_append.mp hm with hm | hm
    · exact .inr (List.eq_of_mem_replicate hm)
    · exact .inl (hpongs m hm)
  · rw [← List.append_assoc]
    exact h'

/-! ## Runs -/

/-- The events of a call, for which no `epoll_ctl(2)` fails that closes the connection `id`. -/
def ClosesFree (id : Nat) (call : TimedCall σ) : Prop :=
  ∀ untimed ∈ untimedCall call, ∀ e, .client e ∈ untimed.events → e.id = id → e.del = true

theorem Accounted.timedStep (h : Accounted (Sending true) id t.server) {call : TimedCall σ}
    (hfree : ClosesFree id call) (hstep : timedStep regexMatch t call = some t') :
    Accounted (Sending true) id t'.server := by
  have hserver := timedStep_untimed hstep
  have hA : Account regexMatch true (fun _ => True) (fun del => del = true)
      (Sending (σ := σ) true) := account_sending
  exact hA.run h (fun _ _ => trivial) (fun _ _ _ _ => trivial) hfree hserver

/-- What was written to a connection, in a state of the server. -/
structure Written (sha1 : Bytes → Vector UInt8 SHA_DIGEST_LENGTH) (id : Nat)
    (w : WritingServer σ) (messages : List (WsFrameType × Bytes)) (bytes : Bytes) : Prop where
  account : Accounted (Sending true) id w.timed.server
  written : w.written id = some bytes
  onWire : OnWire sha1 true (effectsOf w.timed.server.log id) messages bytes

theorem Written.reading {w : WritingServer σ} {messages : List (WsFrameType × Bytes)}
    {bytes : Bytes} (h : Written sha1 id w messages bytes) :
    ∃ key, Reading sha1 key messages bytes ∧
      AskedWith key ((w.timed.server.client? id).map Client.conn) :=
  h.onWire.reading h.account.account

variable (sha1) in
theorem written_init (user : σ) (id : Nat) :
    Written sha1 id ({ timed := { server := { user } } } : WritingServer σ) [] [] := by
  have hA : Account (fun _ _ => none) true (fun _ => True) (fun del => del = true)
      (Sending (σ := σ) true) := account_sending
  exact ⟨hA.init id user, rfl, .goesOn List.not_mem_nil rfl .http⟩

/-- **What one call writes.** -/
theorem Written.step {w w' : WritingServer σ} {messages : List (WsFrameType × Bytes)}
    {bytes : Bytes} (h : Written sha1 id w messages bytes) {call : TimedCall σ}
    (hfree : ClosesFree id call)
    (hstep : writingStep sha1 hash regexMatch w call = some w') :
    ∃ sent added, (∀ m ∈ added, IsControl m) ∧ Written sha1 id w' (messages ++ added) sent := by
  obtain ⟨timed, htimed, rfl⟩ := Option.map_eq_some_iff.mp hstep
  have haccount' := h.account.timedStep hfree htimed
  obtain ⟨sent, added, hsent, hadded, honWire⟩ := h.onWire.call hash h.account htimed haccount'
  refine ⟨sent, added, hadded, haccount', ?_, honWire⟩
  show (w.written id).bind _ = some sent
  rw [h.written]
  exact hsent

/-- **What a client reads.** In every state that a run of the server reaches, what `Poll` has
    handed to `write(2)` for a connection is, for a client of RFC 7230 and RFC 6455 that gets all
    of it: nothing, or one response 404 and no more, or one response 101 that answers the key, and
    behind it whole pongs and empty pings. The 404 cannot be read when its version is `UNKNOWN` or
    `WS`. A connection is left out whose `CloseConn` fails. -/
theorem client_reads (sha1 : Bytes → Vector UInt8 SHA_DIGEST_LENGTH)
    (hash : Vector UInt8 (SHA_DIGEST_LENGTH * 2)) (user : σ) (calls : List (TimedCall σ))
    (id : Nat) (hfree : ∀ call ∈ calls, ClosesFree id call) :
    ∀ w, calls.foldlM (writingStep sha1 hash regexMatch) { timed := { server := { user } } } =
        some w →
      ∃ bytes key messages, w.written id = some bytes ∧ Reading sha1 key messages bytes ∧
        AskedWith key ((w.timed.server.client? id).map Client.conn) ∧
        ∀ m ∈ messages, IsControl m := by
  intro w hrun
  have hinit : ∃ messages bytes, (∀ m ∈ messages, IsControl m) ∧
      Written sha1 id { timed := { server := { user } } } messages bytes :=
    ⟨[], [], fun _ hm => absurd hm List.not_mem_nil,
      written_init sha1 user id⟩
  -- one call adds control frames at most to the messages
  have hone : ∀ (w : WritingServer σ) call w', (∃ messages bytes, (∀ m ∈ messages, IsControl m) ∧
      Written sha1 id w messages bytes) → ClosesFree id call →
      writingStep sha1 hash regexMatch w call = some w' →
      ∃ messages bytes, (∀ m ∈ messages, IsControl m) ∧ Written sha1 id w' messages bytes := by
    rintro w call w' ⟨messages, bytes, hcontrol, h⟩ hfree hstep
    obtain ⟨sent, added, hadded, h'⟩ := h.step hfree hstep
    exact ⟨_, sent, List.forall_mem_append.mpr ⟨hcontrol, hadded⟩, h'⟩
  obtain ⟨messages, bytes, hcontrol, h⟩ := Runs.invariant hone hinit
    (Runs.along_of_forall (fun call hcall _ => hfree call hcall) _) hrun
  obtain ⟨key, hreading, hkey⟩ := h.reading
  exact ⟨bytes, key, messages, h.written, hreading, hkey, hcontrol⟩

/-- The digest for the key of the example in RFC 6455. -/
private def exampleSha1 (_ : Bytes) : Vector UInt8 SHA_DIGEST_LENGTH :=
  #v[0xb3, 0x7a, 0x4f, 0x2c, 0xc0, 0x62, 0x4f, 0x16, 0x90, 0xf6, 0x46, 0x06, 0xcf, 0x38, 0x59,
    0x45, 0xb2, 0xbe, 0xc4, 0xea]

/-- One event of the first connection. -/
private def readOf (unread : Bytes) : TimedPoll Unit :=
  { events := some [{ event := .client (.plain 0 ⟨unread, [.ready 999]⟩) }] }

/-- The request of that example, and a ping; then the connection is idle for eleven seconds. -/
private def pinged : List (TimedCall Unit) :=
  [.registerRequestHandler (ascii "*") {},
    .poll { events := some [{ event := .server ⟨some 5, true, true⟩ }] },
    .poll (readOf (ascii "GET / HTTP/1.1" ++ crlf ++ ascii "Upgrade: websocket" ++ crlf ++
      ascii "Connection: Upgrade" ++ crlf ++
      ascii "Sec-WebSocket-Key: dGhlIHNhbXBsZSBub25jZQ==" ++ crlf ++ crlf)),
    .poll (readOf [0x89, 1, 33]), .poll { before := seconds 11, events := none }]

private theorem closesFree_readOf (unread : Bytes) : ClosesFree 0 (.poll (readOf unread)) := by
  intro untimed huntimed e he _
  obtain rfl := List.mem_singleton.mp huntimed
  obtain rfl := PollEvent.client.inj (List.mem_singleton.mp he)
  rfl

theorem client_reads_pinged :
    ∃ w : WritingServer Unit,
      pinged.foldlM (writingStep exampleSha1 (.replicate _ 0) fun p t => some (simpleMatch p t))
        { timed := { server := { user := () } } } = some w ∧
      ∃ bytes key messages, w.written 0 = some bytes ∧
        bytes = ascii "HTTP/1.1 101 Switching Protocols" ++ crlf ++ ascii "Connection: Upgrade" ++
          crlf ++ ascii "Sec-WebSocket-Accept: s3pPLMBiTxaQ9kYGzzhZRbK+xOo=" ++ crlf ++
          ascii "Upgrade: websocket" ++ crlf ++ crlf ++ [0x8a, 1, 33] ++ [0x89, 0] ∧
        Reading exampleSha1 key messages bytes ∧
        AskedWith key ((w.timed.server.client? 0).map Client.conn) ∧
        ∀ m ∈ messages, IsControl m := by
  -- no event closes a connection, so there is no `CloseConn` that could fail
  have hfree : ∀ call ∈ pinged, ClosesFree 0 call := by
    intro call hcall
    simp only [pinged, List.mem_cons, List.not_mem_nil, or_false] at hcall
    rcases hcall with rfl | rfl | rfl | rfl | rfl
    · rintro untimed huntimed e he -
      obtain rfl := List.mem_singleton.mp huntimed
      exact absurd he List.not_mem_nil
    · rintro untimed huntimed e he -
      obtain rfl := List.mem_singleton.mp huntimed
      cases List.mem_singleton.mp he
    · exact closesFree_readOf _
    · exact closesFree_readOf _
    · rintro untimed huntimed e he -
      obtain rfl := List.mem_singleton.mp huntimed
      exact absurd he List.not_mem_nil
  obtain ⟨w, hrun, hw⟩ := Option.map_eq_some_iff.mp (show
    (pinged.foldlM (writingStep exampleSha1 (.replicate _ 0) fun p t => some (simpleMatch p t))
        { timed := { server := { user := () } } }).map (fun w => w.written 0) =
      some (some (ascii "HTTP/1.1 101 Switching Protocols" ++ crlf ++
        ascii "Connection: Upgrade" ++ crlf ++
        ascii "Sec-WebSocket-Accept: s3pPLMBiTxaQ9kYGzzhZRbK+xOo=" ++ crlf ++
        ascii "Upgrade: websocket" ++ crlf ++ crlf ++ [0x8a, 1, 33] ++ [0x89, 0])) by
    decide +kernel)
  obtain ⟨bytes, key, messages, hwritten, hread⟩ :=
    client_reads exampleSha1 (.replicate _ 0) () pinged 0 hfree w hrun
  exact ⟨w, hrun, bytes, key, messages, hwritten, Option.some.inj (hwritten.symm.trans hw), hread⟩

/-- The response 404 to a request whose method is not known. -/
example :
    ([.poll { events := some [{ event := .server ⟨some 5, true, true⟩ }] },
      .poll (readOf (ascii "DELETE /x HTTP/1.1" ++ crlf ++ crlf))].foldlM
        (writingStep exampleSha1 (.replicate _ 0) fun p t => some (simpleMatch p t))
        { timed := { server := { user := () } } }).map (fun w => w.written 0) =
      some (some (ascii "UNKNOWN 404 Not Found" ++ crlf ++ crlf)) := by
  decide +kernel

end Server

end Httpoll.Native
