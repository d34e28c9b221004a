import Httpoll.Spec.BroadcastContext
import Httpoll.Spec.ClientReads

/-!
# What a subscriber reads

The bytes that a connection of the broadcast example gets, from `Poll` and from `Broadcast`. When
the transfers of the broadcasts are complete, a WebSocket client reads the response 101, then
the text of every broadcast since it has joined, in between whole pings and pongs, and nothing
else.

## Key results

- `Subscription.poll`, `Subscription.broadcast`: what a round adds to the bytes of a connection
- `subscriber_reads`: in every run, what a client reads
-/

namespace Httpoll.Native

open Server Connection WebsocketConnection

namespace BroadcastContext

/-! ## The bytes that are written -/

/-- What is broadcast. -/
def text : Bytes := ascii "hello world at "

/-- The length of its frame. -/
def frameLength : Nat := (wsFrame text .kTypeText).length

/-- What happens in one round of the loop of `main`, with the time that passes in `Poll`. -/
structure TimedRound where
  poll : TimedPoll Unit
  /-- `OnWsConnected` closes no connection, registers no handler and writes nothing. -/
  quiet : ∀ es ∈ poll.events, ∀ e ∈ es,
    (e.event.closes = [] ∧ e.event.registers = []) ∧ e.writes = []
  /-- The answers of the kernel to `Broadcast`, when ten seconds have passed. -/
  broadcast : Option Transfers

/-- The round without the times. -/
def TimedRound.untimed (r : TimedRound) : MainRound where
  events := r.poll.events.map fun events => events.map TimedEvent.event
  quiet := by
    intro es hes e he
    obtain ⟨events, hevents, rfl⟩ := Option.map_eq_some_iff.mp hes
    obtain ⟨e', he', rfl⟩ := List.mem_map.mp he
    exact (r.quiet events hevents e' he').1
  broadcast := r.broadcast

/-- The example, and what it has sent to each connection. -/
structure WatchedContext where
  server : WritingServer Unit
  bg : BroadcastGroup
  /-- How many broadcasts there were since the connection has joined. -/
  heard : (id : Nat) → Nat := fun _ => 0

/-- The example itself. -/
def WatchedContext.context (w : WatchedContext) : BroadcastContext :=
  { server := w.server.timed.server, bg := w.bg }

section Rounds

variable (sha1 : Bytes → Vector UInt8 SHA_DIGEST_LENGTH)
  (hash : Vector UInt8 (SHA_DIGEST_LENGTH * 2)) (regexMatch : (pattern text : Bytes) → Option Bool)
  (pipes : Nat → Option Nat)

/-- `server.Poll` -/
def watchedPoll (w : WatchedContext) (p : TimedPoll Unit) : Option WatchedContext :=
  (writingStep sha1 hash regexMatch w.server (.poll p)).map fun server =>
    let log := server.timed.server.log.drop w.server.timed.server.log.length
    { w with server, bg := log.foldl (onWsConnected pipes) w.bg }

/-- `Broadcast`. What a socket accepts comes behind what was written to it. -/
def watchedBroadcast (w : WatchedContext) (k : Transfers) : Option WatchedContext :=
  (w.context.broadcast text k).map fun ctx =>
    { server :=
        { w.server with
          written := fun id => (w.server.written id).map fun sent =>
            sent ++ (ctx.bg.sockets id).drop (w.bg.sockets id).length }
      bg := ctx.bg
      heard := fun id =>
        if id ∈ w.bg.connections.map Member.conn then w.heard id + 1 else w.heard id }

/-- One round of the loop of `main`. -/
def watchedRound (w : WatchedContext) (r : TimedRound) : Option WatchedContext := do
  let w ← watchedPoll sha1 hash regexMatch pipes w r.poll
  match r.broadcast with
  | none => return w
  | some k => watchedBroadcast w k

end Rounds

/-- `main` before its loop. -/
def watchedStart (capacity : Nat) : WatchedContext where
  server := { timed := { server := (start (some capacity)).server } }
  bg := (start (some capacity)).bg

variable {sha1 : Bytes → Vector UInt8 SHA_DIGEST_LENGTH}
  {hash : Vector UInt8 (SHA_DIGEST_LENGTH * 2)} {regexMatch : Bytes → Bytes → Option Bool}
  {pipes : Nat → Option Nat} {capacity : Nat} {w w' : WatchedContext} {id : Nat}

/-! ## The run without the bytes -/

private theorem poll_context {p : TimedPoll Unit}
    (hpoll : watchedPoll sha1 hash regexMatch pipes w p = some w') :
    w.context.poll regexMatch true pipes (p.events.map fun events => events.map TimedEvent.event) =
      some w'.context := by
  obtain ⟨server, hserver, rfl⟩ := Option.map_eq_some_iff.mp hpoll
  obtain ⟨timed, htimed, rfl⟩ := Option.map_eq_some_iff.mp hserver
  have huntimed := timedStep_untimed htimed
  -- a `Poll` is a single call without the times too
  obtain ⟨s, hs, hnil⟩ := Runs.foldlM_cons_eq_some.mp huntimed
  obtain rfl : s = timed.server := Option.some.inj hnil
  unfold poll
  rw [show w.context.server = w.server.timed.server from rfl, hs]
  rfl

private theorem broadcast_context {k : Transfers} (hbroadcast : watchedBroadcast w k = some w') :
    w.context.broadcast text k = some w'.context := by
  obtain ⟨ctx, hctx, rfl⟩ := Option.map_eq_some_iff.mp hbroadcast
  have hserver : ctx.server = w.server.timed.server := by
    obtain ⟨-, heq⟩ := Option.ite_none_right_eq_some.mp hctx
    obtain rfl := Option.some.inj heq
    rfl
  rw [hctx]
  obtain ⟨server, bg⟩ := ctx
  obtain rfl : server = w.server.timed.server := hserver
  rfl

/-- What a `Broadcast` that returns does. -/
private theorem watchedBroadcast_cases {k : Transfers} (h : watchedBroadcast w k = some w') :
    w'.bg = (w.bg.broadcast text .kTypeText k).2 ∧ w'.server.timed = w.server.timed ∧
      (∀ id, w'.server.written id = (w.server.written id).map fun sent =>
        sent ++ ((w.bg.broadcast text .kTypeText k).2.sockets id).drop
          (w.bg.sockets id).length) ∧
      ∀ id, w'.heard id =
        if id ∈ w.bg.connections.map Member.conn then w.heard id + 1 else w.heard id := by
  obtain ⟨ctx, hctx, rfl⟩ := Option.map_eq_some_iff.mp h
  obtain ⟨-, heq⟩ := Option.ite_none_right_eq_some.mp hctx
  obtain rfl := Option.some.inj heq
  exact ⟨rfl, rfl, fun _ => rfl, fun _ => rfl⟩

/-! ## The group -/

/-- The calls of `Join` in a `Poll` leave nothing in the pipes, and nothing in the sockets. -/
private theorem refines_onWsConnected {bg : BroadcastGroup} {room : Nat}
    (hpipes : ∀ id, ∀ c ∈ pipes id, room ≤ c) (log : List (Nat × Effect))
    (h : ∃ s, BroadcastGroup.Refines room bg s) :
    ∃ s, BroadcastGroup.Refines room (log.foldl (onWsConnected pipes) bg) s := by
  induction log generalizing bg with
  | nil => exact h
  | cons entry log ih =>
    apply ih
    obtain ⟨s, h⟩ := h
    obtain ⟨id, effect⟩ := entry
    cases effect with
    | wsConnectHook uri =>
      -- without a pipe `Join` changes nothing
      cases hpipe : pipes id with
      | none =>
        refine ⟨s, ?_⟩
        show BroadcastGroup.Refines room (bg.join (some id) (pipes id)).2 s
        rw [hpipe]
        exact h
      | some c =>
        have hjoin := h.call (show BroadcastGroup.Complete room (.join (some id) (pipes id)) from
          ⟨c, hpipe, hpipes id c hpipe⟩)
        exact ⟨_, hjoin⟩
    | _ => exact ⟨s, h⟩

/-- A `Broadcast` with complete transfers sends the frame once for each entry. -/
private theorem refines_broadcast {bg : BroadcastGroup} {room : Nat} {data : Bytes} {k : Transfers}
    (h : ∃ s, BroadcastGroup.Refines room bg s)
    (hcomplete : BroadcastGroup.Complete room (.broadcast data .kTypeText k)) :
    (∃ s, BroadcastGroup.Refines room (bg.broadcast data .kTypeText k).2 s) ∧
      ∀ id, (bg.broadcast data .kTypeText k).2.sockets id = bg.sockets id ++
        (List.replicate ((bg.connections.map Member.conn).count id)
          (wsFrame data .kTypeText)).flatten := by
  obtain ⟨s, h⟩ := h
  have h' := h.call hcomplete
  refine ⟨⟨_, h'⟩, ?_⟩
  intro id
  -- one frame for each entry, by the account of the sockets
  rw [h.entries, h.received id]
  exact h'.received id

/-! ## Subscriptions -/

/-- A state of the example between two rounds. -/
def Reached (regexMatch : (pattern text : Bytes) → Option Bool) (pipes : Nat → Option Nat)
    (capacity : Nat) (ctx : BroadcastContext) : Prop :=
  ∃ rounds : List MainRound,
    rounds.foldlM (mainRound regexMatch true pipes) (start (some capacity)) = some ctx

/-- What a connection has read so far: control frames, and the broadcasts since it has joined. -/
structure Subscription (sha1 : Bytes → Vector UInt8 SHA_DIGEST_LENGTH) (id : Nat)
    (w : WatchedContext) : Prop where
  refines : ∃ s, BroadcastGroup.Refines frameLength w.bg s
  written : ∃ messages bytes, Written sha1 id w.server messages bytes ∧
    messages.filter (·.1 = .kTypeText) = List.replicate (w.heard id) (.kTypeText, text) ∧
    ∀ m ∈ messages, m.1 ≠ .kTypeText → IsControl m

namespace Subscription

/-- A control frame is no text. -/
private theorem filter_control {messages : List (WsFrameType × Bytes)}
    (h : ∀ m ∈ messages, IsControl m) : messages.filter (·.1 = .kTypeText) = [] := by
  rw [List.filter_eq_nil_iff]
  intro m hm
  rcases h m hm with hpong | rfl
  · simp [hpong]
  · simp

variable (sha1) in
private theorem init (hcapacity : frameLength ≤ capacity) (id : Nat) :
    Subscription sha1 id (watchedStart capacity) := by
  refine ⟨⟨⟨[], fun _ => []⟩, ?_⟩, [], [], ?_, rfl, ?_⟩
  · exact ⟨⟨.empty capacity, rfl, rfl, hcapacity⟩, fun _ hm => absurd hm List.not_mem_nil, rfl,
      fun _ => rfl⟩
  · have hinit := (written_init sha1 () id).account
    refine ⟨⟨hinit.clients.registerRequestHandler _ _, hinit.account, hinit.unborn⟩, rfl, ?_⟩
    exact .goesOn List.not_mem_nil rfl .http
  · exact fun m hm => absurd hm List.not_mem_nil

/-- **A `Poll`.** -/
private theorem poll (h : Subscription sha1 id w)
    (hpipes : ∀ id, ∀ c ∈ pipes id, frameLength ≤ c) {p : TimedPoll Unit}
    (hfree : ClosesFree id (.poll p))
    (hpoll : watchedPoll sha1 hash regexMatch pipes w p = some w') : Subscription sha1 id w' := by
  obtain ⟨server, hserver, rfl⟩ := Option.map_eq_some_iff.mp hpoll
  obtain ⟨messages, bytes, hwritten, htexts, hcontrol⟩ := h.written
  obtain ⟨sent, added, hadded, hwritten'⟩ := hwritten.step hfree hserver
  refine ⟨refines_onWsConnected hpipes _ h.refines, messages ++ added, sent, hwritten', ?_, ?_⟩
  · -- a `Poll` adds control frames only, and no text
    rw [List.filter_append, filter_control hadded, List.append_nil]
    exact htexts
  · intro m hm hne
    rcases List.mem_append.mp hm with hm | hm
    · exact hcontrol m hm hne
    · exact hadded m hm

/-- `Broadcast` sends to WebSocket clients that the server holds. -/
private theorem websocket_of_broadcast (hreached : Reached regexMatch pipes capacity w.context)
    {k : Transfers}
    (hcomplete : BroadcastGroup.Complete frameLength (.broadcast text .kTypeText k))
    (hbroadcast : watchedBroadcast w k = some w')
    (hmember : id ∈ w.bg.connections.map Member.conn) :
    ∃ c, w.server.timed.server.client? id = some c ∧ c.conn.wsConn.isSome = true := by
  obtain ⟨rounds, hrounds⟩ := hreached
  obtain ⟨-, ⟨n, hheader, -⟩, ⟨n', hdata, -⟩, -⟩ := hcomplete
  cases hc : w.server.timed.server.client? id with
  | none =>
    -- it would not return
    have hdangling := (broadcast_eq_none_iff (members_run hrounds) text k).mpr
      ⟨⟨by rw [hheader]; rfl, by rw [hdata]; rfl⟩, id, hmember, hc⟩
    exact absurd (hdangling.symm.trans (broadcast_context hbroadcast)) (by simp)
  | some c =>
    obtain ⟨hmem, rfl⟩ := client?_eq_some hc
    exact ⟨c, rfl, ((mem_members_iff hrounds hmem).mp hmember).1⟩

/-- **A `Broadcast`.** -/
private theorem broadcast (h : Subscription sha1 id w)
    (hreached : Reached regexMatch pipes capacity w.context) {k : Transfers}
    (hcomplete : BroadcastGroup.Complete frameLength (.broadcast text .kTypeText k))
    (hbroadcast : watchedBroadcast w k = some w') : Subscription sha1 id w' := by
  obtain ⟨hrefines, hsockets⟩ := refines_broadcast h.refines hcomplete
  obtain ⟨rounds, hrounds⟩ := hreached
  -- a member is one once, so the frame is sent once to it
  have hnodup : (w.bg.connections.map Member.conn).Nodup := nodup_members hrounds
  have hcount : (w.bg.connections.map Member.conn).count id =
      if id ∈ w.bg.connections.map Member.conn then 1 else 0 := hnodup.count
  generalize hn : (w.bg.connections.map Member.conn).count id = n at hcount
  have hclient : n ≠ 0 → ∃ c, w.server.timed.server.client? id = some c ∧
      c.conn.wsConn.isSome = true := by
    intro hne
    apply websocket_of_broadcast ⟨rounds, hrounds⟩ hcomplete hbroadcast
    rw [← List.count_pos_iff]
    omega
  obtain ⟨hbg, htimed, hsent, hheard⟩ := watchedBroadcast_cases hbroadcast
  obtain ⟨messages, bytes, hwritten, htexts, hcontrol⟩ := h.written
  have hlen : text.length < 0xffff := by decide
  have honWire := hwritten.onWire.frames hwritten.account.account hlen .kTypeText hclient
  have hwritten' : Written sha1 id w'.server (messages ++ List.replicate n (.kTypeText, text))
      (bytes ++ (List.replicate n (wsFrame text .kTypeText)).flatten) := by
    constructor
    · rw [htimed]
      exact hwritten.account
    · rw [hsent, hwritten.written, hsockets, hn, List.drop_left]
      rfl
    · rw [htimed]
      exact honWire
  constructor
  · rw [hbg]
    exact hrefines
  · refine ⟨_, _, hwritten', ?_, ?_⟩
    · -- `heard` counts what was sent
      have hcounted : w'.heard id = w.heard id + n := by
        rw [hheard, hcount]
        split <;> rfl
      rw [hcounted, List.filter_append, htexts, List.filter_replicate_of_pos (by simp),
        List.replicate_append_replicate]
    · intro m hm hne
      rcases List.mem_append.mp hm with hm | hm
      · exact hcontrol m hm hne
      · rw [List.eq_of_mem_replicate hm] at hne
        exact absurd rfl hne

end Subscription

/-! ## Runs -/

/-- A round is a `Poll`, and perhaps a `Broadcast`. -/
private theorem watchedRound_cases {r : TimedRound}
    (hround : watchedRound sha1 hash regexMatch pipes w r = some w') :
    ∃ polled, watchedPoll sha1 hash regexMatch pipes w r.poll = some polled ∧
      (r.broadcast = none ∧ w' = polled ∨
        ∃ k, r.broadcast = some k ∧ watchedBroadcast polled k = some w') := by
  obtain ⟨polled, hpoll, hrest⟩ := Option.bind_eq_some_iff.mp hround
  refine ⟨polled, hpoll, ?_⟩
  cases hbroadcast : r.broadcast with
  | none =>
    rw [hbroadcast] at hrest
    exact .inl ⟨rfl, (Option.some.inj hrest).symm⟩
  | some k =>
    rw [hbroadcast] at hrest
    exact .inr ⟨k, rfl, hrest⟩

/-- The same round of the example. -/
theorem mainRound_untimed {r : TimedRound}
    (hround : watchedRound sha1 hash regexMatch pipes w r = some w') :
    w.context.mainRound regexMatch true pipes r.untimed = some w'.context := by
  obtain ⟨polled, hpoll, hrest⟩ := watchedRound_cases hround
  have hpolled := poll_context hpoll
  unfold mainRound
  rw [show r.untimed.events = r.poll.events.map fun events => events.map TimedEvent.event from rfl,
    hpolled]
  rcases hrest with ⟨hbroadcast, rfl⟩ | ⟨k, hbroadcast, hsent⟩
  · rw [show r.untimed.broadcast = none from hbroadcast]
    rfl
  · rw [show r.untimed.broadcast = some k from hbroadcast]
    exact broadcast_context hsent

theorem Reached.round (h : Reached regexMatch pipes capacity w.context) {r : TimedRound}
    (hround : watchedRound sha1 hash regexMatch pipes w r = some w') :
    Reached regexMatch pipes capacity w'.context := by
  obtain ⟨rounds, hrounds⟩ := h
  refine ⟨rounds ++ [r.untimed], ?_⟩
  rw [Runs.foldlM_append_of_some hrounds]
  exact Runs.foldlM_cons_eq_some.mpr ⟨_, mainRound_untimed hround, rfl⟩

/-- **One round.** -/
private theorem Subscription.round (h : Subscription sha1 id w)
    (hreached : Reached regexMatch pipes capacity w.context)
    (hpipes : ∀ id, ∀ c ∈ pipes id, frameLength ≤ c) {r : TimedRound}
    (hcomplete : ∀ k ∈ r.broadcast,
      BroadcastGroup.Complete frameLength (.broadcast text .kTypeText k))
    (hfree : ClosesFree id (.poll r.poll))
    (hround : watchedRound sha1 hash regexMatch pipes w r = some w') : Subscription sha1 id w' := by
  obtain ⟨polled, hpoll, hrest⟩ := watchedRound_cases hround
  have hpolled := h.poll hpipes hfree hpoll
  rcases hrest with ⟨-, rfl⟩ | ⟨k, hbroadcast, hsent⟩
  · exact hpolled
  · obtain ⟨rounds, hrounds⟩ := hreached
    -- `Broadcast` is called in the state that the `Poll` of the round has left
    have hbetween : Reached regexMatch pipes capacity polled.context :=
      ⟨_, polled_run hrounds (r := r.untimed) (poll_context hpoll)⟩
    exact hpolled.broadcast hbetween (hcomplete k hbroadcast) hsent

/-- **What a subscriber reads.** Take a run of the example in which all transfers of the
    broadcasts are complete, and every pipe has room for a frame. What `Poll` has handed to
    `write(2)` for a connection and `Broadcast` has sent to it is, for a client of RFC 7230 and
    RFC 6455 that gets all of it: nothing, or one response 404, or one response 101 that answers
    the key, and behind it the text once for every broadcast since it has joined, whole pongs and
    empty pings, and nothing else. The 404 cannot be read when its version is `UNKNOWN` or `WS`. A
    connection is left out whose `CloseConn` fails. -/
theorem subscriber_reads (sha1 : Bytes → Vector UInt8 SHA_DIGEST_LENGTH)
    (hash : Vector UInt8 (SHA_DIGEST_LENGTH * 2)) (capacity : Nat) (rounds : List TimedRound)
    (id : Nat) (hcapacity : frameLength ≤ capacity)
    (hpipes : ∀ id, ∀ c ∈ pipes id, frameLength ≤ c)
    (hcomplete : ∀ r ∈ rounds, ∀ k ∈ r.broadcast,
      BroadcastGroup.Complete frameLength (.broadcast text .kTypeText k))
    (hfree : ∀ r ∈ rounds, ClosesFree id (.poll r.poll)) :
    ∀ w, rounds.foldlM (watchedRound sha1 hash regexMatch pipes) (watchedStart capacity) =
        some w →
      ∃ bytes key messages, w.server.written id = some bytes ∧ Reading sha1 key messages bytes ∧
        AskedWith key ((w.context.server.client? id).map Client.conn) ∧
        messages.filter (·.1 = .kTypeText) = List.replicate (w.heard id) (.kTypeText, text) ∧
        ∀ m ∈ messages, m.1 ≠ .kTypeText → IsControl m := by
  intro w hrun
  have hstep : ∀ (w : WatchedContext) (r : TimedRound) w',
      (Reached regexMatch pipes capacity w.context ∧ Subscription sha1 id w) →
      ((∀ k ∈ r.broadcast, BroadcastGroup.Complete frameLength (.broadcast text .kTypeText k)) ∧
        ClosesFree id (.poll r.poll)) →
      watchedRound sha1 hash regexMatch pipes w r = some w' →
      Reached regexMatch pipes capacity w'.context ∧ Subscription sha1 id w' :=
    fun _ _ _ h hr hround => ⟨h.1.round hround, h.2.round h.1 hpipes hr.1 hr.2 hround⟩
  -- the subscription is kept by each round of the main loop, up to any state of the run
  obtain ⟨-, h⟩ := Runs.invariant hstep ⟨⟨[], rfl⟩, Subscription.init sha1 hcapacity id⟩
    (Runs.along_of_forall (fun r hr _ => ⟨hcomplete r hr, hfree r hr⟩) _) hrun
  obtain ⟨messages, bytes, hwritten, htexts, hcontrol⟩ := h.written
  obtain ⟨key, hreading, hkey⟩ := hwritten.reading
  exact ⟨bytes, key, messages, hwritten.written, hreading, hkey, htexts, hcontrol⟩

/-- One event, and complete transfers for a broadcast behind it. -/
private def eventRound (e : PollEvent Unit) (h : e.closes = [] ∧ e.registers = []) :
    TimedRound where
  poll := { events := some [{ event := e }] }
  quiet := by
    intro es hes e' he'
    obtain rfl := Option.some.inj hes
    obtain rfl := List.mem_singleton.mp he'
    exact ⟨h, rfl⟩
  broadcast := some (BroadcastGroup.movesUpTo frameLength)

private theorem accepts_quiet (answer : AcceptAnswer) :
    (PollEvent.server answer : PollEvent Unit).closes = [] ∧
      (PollEvent.server answer : PollEvent Unit).registers = [] := ⟨rfl, rfl⟩

private theorem reads_quiet (s : Socket) :
    (PollEvent.client (.plain 0 s) : PollEvent Unit).closes = [] ∧
      (PollEvent.client (.plain 0 s) : PollEvent Unit).registers = [] := ⟨rfl, rfl⟩

private def acceptRound (answer : AcceptAnswer) : TimedRound :=
  eventRound (.server answer) (accepts_quiet answer)

private def readRound (s : Socket) : TimedRound := eventRound (.client (.plain 0 s)) (reads_quiet s)

/-- A client is upgraded and broadcast to, sends a ping, and is broadcast to again. -/
private def joinsAndPings : List TimedRound :=
  [acceptRound ⟨some 5, true, true⟩,
    readRound ⟨ascii "GET /broadcast HTTP/1.1" ++ crlf ++ ascii "Upgrade: websocket" ++ crlf ++
      ascii "Connection: Upgrade" ++ crlf ++ ascii "Sec-WebSocket-Key: abc" ++ crlf ++ crlf,
      [.ready 999]⟩,
    readRound ⟨[0x89, 1, 33], [.ready 999]⟩]

private theorem closesFree_acceptRound (answer : AcceptAnswer) :
    ClosesFree 0 (.poll (acceptRound answer).poll) := by
  intro untimed huntimed e he _
  obtain rfl := List.mem_singleton.mp huntimed
  cases List.mem_singleton.mp he

private theorem closesFree_readRound (s : Socket) : ClosesFree 0 (.poll (readRound s).poll) := by
  intro untimed huntimed e he _
  obtain rfl := List.mem_singleton.mp huntimed
  obtain rfl := PollEvent.client.inj (List.mem_singleton.mp he)
  rfl

private def zeroSha1 (_ : Bytes) : Vector UInt8 SHA_DIGEST_LENGTH := .replicate _ 0

theorem subscriber_reads_pings :
    ∃ w : WatchedContext,
      joinsAndPings.foldlM (watchedRound zeroSha1 (.replicate _ 0)
        (fun p t => some (simpleMatch p t)) fun _ => some 64) (watchedStart 64) = some w ∧
      ∃ bytes key messages, w.server.written 0 = some bytes ∧
        Reading zeroSha1 key messages bytes ∧
        AskedWith key ((w.context.server.client? 0).map Client.conn) ∧
        messages.filter (·.1 = .kTypeText) = List.replicate 2 (.kTypeText, text) ∧
        ∀ m ∈ messages, m.1 ≠ .kTypeText → IsControl m := by
  obtain ⟨w, hrun, hheard⟩ := Option.map_eq_some_iff.mp (show
    (joinsAndPings.foldlM (watchedRound zeroSha1 (.replicate _ 0)
      (fun p t => some (simpleMatch p t)) fun _ => some 64) (watchedStart 64)).map
        (fun w => w.heard 0) = some 2 by
    decide +kernel)
  -- no connection is closed, and all transfers are complete
  have hrounds : ∀ r ∈ joinsAndPings, ClosesFree 0 (.poll r.poll) ∧
      r.broadcast = some (BroadcastGroup.movesUpTo frameLength) := by
    intro r hr
    simp only [joinsAndPings, List.mem_cons, List.not_mem_nil, or_false] at hr
    rcases hr with rfl | rfl | rfl
    · exact ⟨closesFree_acceptRound _, rfl⟩
    · exact ⟨closesFree_readRound _, rfl⟩
    · exact ⟨closesFree_readRound _, rfl⟩
  have hcomplete : ∀ r ∈ joinsAndPings, ∀ k ∈ r.broadcast,
      BroadcastGroup.Complete frameLength (.broadcast text .kTypeText k) := by
    intro r hr k hk
    rw [(hrounds r hr).2] at hk
    rw [← Option.mem_some_iff.mp hk]
    exact BroadcastGroup.complete_movesUpTo (Nat.le_refl _)
  have hpipes : ∀ id, ∀ c ∈ (fun _ : Nat => some 64) id, frameLength ≤ c := by
    intro id c hc
    rw [← Option.mem_some_iff.mp hc]
    decide
  obtain ⟨bytes, key, messages, hwritten, hreading, hkey, htexts, hcontrol⟩ :=
    subscriber_reads zeroSha1 (.replicate _ 0) 64 joinsAndPings 0 (by decide) hpipes hcomplete
      (fun r hr => (hrounds r hr).1) w hrun
  rw [hheard] at htexts
  exact ⟨w, hrun, bytes, key, messages, hwritten, hreading, hkey, htexts, hcontrol⟩

end BroadcastContext

end Httpoll.Native
