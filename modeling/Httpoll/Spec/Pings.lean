import Httpoll.Native.ServerPing
import Httpoll.Spec.ConnectionLog
import Httpoll.Spec.FrameHeaderRoundTrip

/-!
# Pings

`Poll` pings the WebSocket connections that have been idle for more than ten seconds, each time
before it waits for events. What the pings are to achieve holds over every run, whatever time
the events and the callbacks take.

## Key results

- `untimed`: without the times, a run of the server is one of `Server::Poll` as it is modelled
  without them, so pings do nothing to the connections
- `idle_bound`: no WebSocket connection has been idle for more than ten seconds when `Poll`
  begins to wait
- `pings_spaced`: a ping comes more than ten seconds after the upgrade and whatever was read from
  or written to the connection before, other pings included, and it is an empty ping frame; only
  the time at which `Write` was done with an earlier ping does not count, as it is set back
-/

namespace Httpoll.Native.Server

open Connection

variable {σ : Type} {regexMatch : Bytes → Bytes → Option Bool}

/-! ## Times -/

/-- What holds of the times: none lies in the future, and no ping comes too early. -/
structure Times (t : TimedServer σ) : Prop where
  pass : t.lastPass ≤ t.clock
  past : ∀ id, t.lastIoTime id ≤ t.clock
  /-- A time that stays is never set back. -/
  marked : ∀ m ∈ t.marks, m.stays = true → m.time ≤ t.lastIoTime m.id
  spaced : t.marks.Pairwise fun a b =>
    b.isPing = true → a.stays = true → a.id = b.id →
      a.time + seconds HPL_ENABLE_PING_PONG < b.time
  buffers : ∀ id time buffers, .ping id time buffers ∈ t.marks →
    buffers = [makeWebsocketHeader 0 .kTypePing, []]

/-- The times go on. -/
structure Later (t t' : TimedServer σ) : Prop where
  clock : t.clock ≤ t'.clock
  lastIoTime : ∀ id, t.lastIoTime id ≤ t'.lastIoTime id
  lastPass : t'.lastPass = t.lastPass
  server : t'.server = t.server

namespace Later

variable {t t' t'' : TimedServer σ}

theorem refl (t : TimedServer σ) : Later t t := ⟨Nat.le_refl _, fun _ => Nat.le_refl _, rfl, rfl⟩

theorem trans (h : Later t t') (h' : Later t' t'') : Later t t'' :=
  ⟨Nat.le_trans h.clock h'.clock, fun id => Nat.le_trans (h.lastIoTime id) (h'.lastIoTime id),
    h'.lastPass.trans h.lastPass, h'.server.trans h.server⟩

theorem now (t : TimedServer σ) (elapsed : Nat) : Later t (t.now elapsed) :=
  ⟨Nat.le_add_right _ _, fun _ => Nat.le_refl _, rfl, rfl⟩

end Later

namespace Times

variable {t : TimedServer σ}

theorem init (user : σ) : Times ({ server := { user } } : TimedServer σ) :=
  ⟨Nat.le_refl 0, fun _ => Nat.le_refl 0, fun _ hm => absurd hm List.not_mem_nil, .nil,
    fun _ _ _ hm => absurd hm List.not_mem_nil⟩

theorem withServer (h : Times t) (s : ServerState σ) : Times { t with server := s } :=
  ⟨h.pass, h.past, h.marked, h.spaced, h.buffers⟩

theorem now (h : Times t) (elapsed : Nat) : Times (t.now elapsed) :=
  ⟨Nat.le_trans h.pass (Nat.le_add_right _ _),
    fun id => Nat.le_trans (h.past id) (Nat.le_add_right _ _), h.marked, h.spaced, h.buffers⟩

/-- A mark more, with times that are not before those until then. -/
private theorem append (h : Times t) {lastIoTime : Nat → Nat} (hlater : t.lastIoTime ≤ lastIoTime)
    (hpast : ∀ id, lastIoTime id ≤ t.clock) {m : Mark}
    (hmarked : m.stays = true → m.time ≤ lastIoTime m.id)
    (hspaced : m.isPing = true → t.lastIoTime m.id + seconds HPL_ENABLE_PING_PONG < m.time)
    (hbuffers : ∀ id time buffers, m = .ping id time buffers →
      buffers = [makeWebsocketHeader 0 .kTypePing, []]) :
    Times { t with lastIoTime, marks := t.marks ++ [m] } := by
  constructor
  · exact h.pass
  · exact hpast
  · intro m' hm' hstays
    rcases List.mem_append.mp hm' with hm' | hm'
    · exact Nat.le_trans (h.marked m' hm' hstays) (hlater m'.id)
    · obtain rfl := List.mem_singleton.mp hm'
      exact hmarked hstays
  · apply List.pairwise_append.mpr
    refine ⟨h.spaced, List.pairwise_singleton _ _, ?_⟩
    intro a ha b hb hping hstays hab
    obtain rfl := List.mem_singleton.mp hb
    -- the earlier mark is not after `last_io_time_`, and the ping is ten seconds after that
    have hearlier := h.marked a ha hstays
    rw [hab] at hearlier
    have hlt := hspaced hping
    omega
  · intro id time buffers hmem
    rcases List.mem_append.mp hmem with hmem | hmem
    · exact h.buffers id time buffers hmem
    · exact hbuffers id time buffers (List.mem_singleton.mp hmem).symm

/-- A mark for a time that is set back at once. -/
private theorem overwritten (h : Times t) {m : Mark} (hstays : m.stays = false)
    (hping : m.isPing = false) : Times { t with marks := t.marks ++ [m] } := by
  refine h.append (Nat.le_refl <| t.lastIoTime ·) h.past ?_ ?_ ?_
  · intro hstays'
    rw [hstays] at hstays'
    cases hstays'
  · intro hping'
    rw [hping] at hping'
    cases hping'
  · intro id time buffers heq
    rw [heq] at hping
    cases hping

/-- A mark for a time that is not before any other of the connection. -/
private theorem mark (h : Times t) (id : Nat) {time : Nat} (hlast : t.lastIoTime id ≤ time)
    (htime : time ≤ t.clock) {m : Mark} (hid : m.id = id) (hmtime : m.time = time)
    (hspaced : m.isPing = true → t.lastIoTime id + seconds HPL_ENABLE_PING_PONG < time)
    (hbuffers : ∀ id time buffers, m = .ping id time buffers →
      buffers = [makeWebsocketHeader 0 .kTypePing, []]) :
    Times { t with
      lastIoTime := Function.update t.lastIoTime id time
      marks := t.marks ++ [m] } := by
  -- the times of the other connections stay, and that of this one does not go back
  have hlater : t.lastIoTime ≤ Function.update t.lastIoTime id time :=
    le_update_self_iff.mpr hlast
  have hpast : Function.update t.lastIoTime id time ≤ fun _ => t.clock :=
    update_le_iff.mpr ⟨htime, fun id' _ => h.past id'⟩
  refine h.append hlater hpast ?_ ?_ hbuffers
  · intro _
    rw [hid, Function.update_self, hmtime]
  · rw [hid, hmtime]
    exact hspaced

theorem touch (h : Times t) (id elapsed : Nat) :
    Times (t.touch id elapsed) ∧ Later t (t.touch id elapsed) ∧
      t.clock ≤ (t.touch id elapsed).lastIoTime id := by
  have hnow := h.now elapsed
  refine ⟨hnow.mark id (hnow.past id) (Nat.le_refl _) rfl rfl nofun nofun, ?_, ?_⟩
  · exact ⟨Nat.le_add_right _ _, le_update_self_iff.mpr (hnow.past id), rfl, rfl⟩
  · show t.clock ≤ Function.update t.lastIoTime id (t.clock + elapsed) id
    rw [Function.update_self]
    omega

/-- `ServerPing`: afterwards the connection was not idle for too long at the time when it was
    looked at. -/
theorem serverPing (h : Times t) (id : Nat) {c : Connection σ} (hfd : c.fd ≠ -1)
    (d : TimedServer.PingDelays) :
    Times (t.serverPing id c d).2 ∧ Later t (t.serverPing id c d).2 ∧
      t.clock ≤ (t.serverPing id c d).2.lastIoTime id + seconds HPL_ENABLE_PING_PONG := by
  have hpast := h.past id
  have hnow := h.now d.first
  unfold TimedServer.serverPing
  dsimp only
  split
  · rename_i hidle
    have hidle' : t.lastIoTime id + seconds HPL_ENABLE_PING_PONG < t.clock + d.first := by
      change t.clock + d.first - t.lastIoTime id > _ at hidle
      omega
    -- what `Write` has set is set back to the first reading of the clock
    rw [Function.update_idem]
    have hwritten := (hnow.now d.write).overwritten
      (m := .pingWrite id ((t.now d.first).now d.write).clock) rfl rfl
    refine ⟨hwritten.mark id (Nat.le_trans hpast (Nat.le_add_right _ _))
      (Nat.le_add_right _ _) rfl rfl (fun _ => hidle') ?_, ?_, ?_⟩
    · intro id' time' buffers heq
      obtain ⟨-, -, rfl⟩ := Mark.ping.inj heq
      exact if_neg hfd
    · refine ⟨?_, le_update_self_iff.mpr (hnow.past id), rfl, rfl⟩
      show t.clock ≤ t.clock + d.first + d.write
      omega
    · show t.clock ≤ Function.update t.lastIoTime id (t.clock + d.first) id + _
      rw [Function.update_self]
      omega
  · rename_i hidle
    refine ⟨hnow, Later.now t d.first, ?_⟩
    change ¬ t.clock + d.first - t.lastIoTime id > _ at hidle
    show t.clock ≤ t.lastIoTime id + _
    omega

end Times

/-! ## The loop over the connections -/

private theorem Times.pingOne {t : TimedServer σ} (h : Times t) {c : Client σ}
    (hfd : c.conn.fd ≠ -1) (d : TimedServer.PingDelays) :
    Times (t.pingOne c d) ∧ Later t (t.pingOne c d) ∧
      (c.conn.wsConn.isSome = true →
        t.clock ≤ (t.pingOne c d).lastIoTime c.id + seconds HPL_ENABLE_PING_PONG) := by
  unfold TimedServer.pingOne
  split
  · obtain ⟨htimes, hlater, hrecent⟩ := h.serverPing c.id hfd d
    exact ⟨htimes, hlater, fun _ => hrecent⟩
  · rename_i hplain
    exact ⟨h, Later.refl t, fun hws => absurd hws hplain⟩

/-- The rest of the loop, by induction on the connections. -/
private theorem Times.foldl_pingOne {t : TimedServer σ} (h : Times t)
    (delays : Nat → TimedServer.PingDelays) {clients : List (Client σ)}
    (hfd : ∀ c ∈ clients, c.conn.fd ≠ -1) :
    Times (clients.foldl (fun t c => t.pingOne c (delays c.id)) t) ∧
      Later t (clients.foldl (fun t c => t.pingOne c (delays c.id)) t) ∧
      ∀ c ∈ clients, c.conn.wsConn.isSome = true →
        t.clock ≤ (clients.foldl (fun t c => t.pingOne c (delays c.id)) t).lastIoTime c.id +
          seconds HPL_ENABLE_PING_PONG := by
  induction clients generalizing t with
  | nil => exact ⟨h, Later.refl t, fun _ hc => absurd hc List.not_mem_nil⟩
  | cons c clients ih =>
    obtain ⟨hfirst, hrest⟩ := List.forall_mem_cons.mp hfd
    obtain ⟨htimes, hlater, hrecent⟩ := h.pingOne hfirst (delays c.id)
    obtain ⟨htimes', hlater', hrecent'⟩ := ih htimes hrest
    refine ⟨htimes', hlater.trans hlater', ?_⟩
    intro c' hc' hws
    rcases List.mem_cons.mp hc' with rfl | hmem
    · -- the pings of the others do not set the time of this one back
      have hgrow := hlater'.lastIoTime c'.id
      have hthis := hrecent hws
      rw [List.foldl_cons]
      omega
    · -- the clock goes on while the ones before are pinged
      have hthat := hrecent' c' hmem hws
      have hclock := hlater.clock
      rw [List.foldl_cons]
      omega

/-! ## Events -/

private theorem Times.writeAll {t : TimedServer σ} (h : Times t) (writes : List (Nat × Nat)) :
    Times (writeAll t writes) ∧ Later t (writeAll t writes) := by
  unfold Server.writeAll
  induction writes generalizing t with
  | nil => exact ⟨h, Later.refl t⟩
  | cons write writes ih =>
    rw [List.foldl_cons]
    split
    · obtain ⟨htimes, hlater, -⟩ := h.touch write.1 write.2
      obtain ⟨htimes', hlater'⟩ := ih htimes
      exact ⟨htimes', hlater.trans hlater'⟩
    · obtain ⟨htimes', hlater'⟩ := ih (h.now write.2)
      exact ⟨htimes', (Later.now t write.2).trans hlater'⟩

variable (regexMatch) in
/-- The times after an event, and that of its connection if the event has set it. -/
private theorem Times.timesAfter {t : TimedServer σ} (h : Times t) (e : TimedEvent σ)
    (s : ServerState σ) :
    Times (timesAfter regexMatch t e s) ∧
      Later { t with server := s } (timesAfter regexMatch t e s) ∧
      ∀ ce, e.event = .client ce → setsTime regexMatch t.server ce = true →
        t.clock ≤ (timesAfter regexMatch t e s).lastIoTime ce.id := by
  unfold Server.timesAfter
  have h := h.withServer s
  cases e.event with
  | server answer => exact ⟨h, Later.refl _, nofun⟩
  | client ce =>
    dsimp only
    generalize hfirst : (if setsTime regexMatch t.server ce = true then
      TimedServer.touch { t with server := s } ce.id e.elapsed
      else TimedServer.now { t with server := s } e.elapsed) = t₁
    have h₁ : Times t₁ ∧ Later { t with server := s } t₁ ∧
        (setsTime regexMatch t.server ce = true → t.clock ≤ t₁.lastIoTime ce.id) := by
      rw [← hfirst]
      split
      · obtain ⟨htimes, hlater, hset⟩ := h.touch ce.id e.elapsed
        exact ⟨htimes, hlater, fun _ => hset⟩
      · rename_i hnot
        exact ⟨h.now e.elapsed, Later.now _ _, fun hset => absurd hset hnot⟩
    -- the pong and the writes of the callbacks come later
    generalize hsecond : (if ((s.log.drop t.server.log.length).map Prod.snd).any Effect.isWrite
      then t₁.touch ce.id e.pongElapsed else t₁) = t₂
    have h₂ : Times t₂ ∧ Later t₁ t₂ := by
      rw [← hsecond]
      split
      · obtain ⟨htimes, hlater, -⟩ := h₁.1.touch ce.id e.pongElapsed
        exact ⟨htimes, hlater⟩
      · exact ⟨h₁.1, Later.refl t₁⟩
    have h₃ : ∀ b : Bool, Times (if b = true then Server.writeAll t₂ e.writes else t₂) ∧
        Later t₂ (if b = true then Server.writeAll t₂ e.writes else t₂) := by
      intro b
      split
      · exact h₂.1.writeAll e.writes
      · exact ⟨h₂.1, Later.refl t₂⟩
    obtain ⟨htimes, hlater⟩ := h₃ (((s.log.drop t.server.log.length).map Prod.snd).any
      Effect.isCallback)
    refine ⟨htimes, h₁.2.1.trans (h₂.2.trans hlater), ?_⟩
    intro ce' hce hset
    cases hce
    exact Nat.le_trans (h₁.2.2 hset)
      (Nat.le_trans (h₂.2.lastIoTime ce.id) (hlater.lastIoTime ce.id))

/-- A WebSocket connection after an event was one before, or the event is its own and sets its
    time. -/
private theorem upgraded_pollOne {s s' : ServerState σ} (h : Inv s) {e : PollEvent σ}
    (hs' : stateAfter (pollOne regexMatch true s e) = some s') :
    ∀ c' ∈ s'.pendingConns, c'.conn.wsConn.isSome = true →
      (∃ c ∈ s.pendingConns, c.id = c'.id ∧ c.conn.wsConn.isSome = true) ∨
        ∃ ce, e = .client ce ∧ ce.id = c'.id ∧ setsTime regexMatch s ce = true := by
  intro c' hc' hws
  obtain ⟨effects, hround, -, -, -⟩ := pollOne_rounds h c'.id hs'
  rw [(h.pollOne hs').client?_of_mem hc', Option.map_some] at hround
  generalize hconn : some c'.conn = conn at hround
  cases hround with
  | other _ hbefore =>
    rcases hbefore with hsame | hnone
    · obtain ⟨c, hc, heq⟩ := Option.map_eq_some_iff.mp (hconn.trans hsame).symm
      obtain ⟨hmem, hid⟩ := client?_eq_some hc
      refine .inl ⟨c, hmem, hid, ?_⟩
      rw [heq]
      exact hws
    · cases hconn.trans hnone
  | accepted =>
    -- the new connection is not upgraded
    rw [Option.some.inj hconn] at hws
    cases hws
  | @served ce c hc hid hin r s₁ hserved =>
    unfold survivor at hconn
    split at hconn
    · cases hconn
    · by_cases hwas : c.conn.wsConn.isSome = true
      · obtain ⟨hmem, hcid⟩ := client?_eq_some hc
        exact .inl ⟨c, hmem, hcid.trans hid, hwas⟩
      · refine .inr ⟨ce, rfl, hid, ?_⟩
        unfold setsTime
        rw [hc]
        dsimp only
        rw [hin, if_neg hwas, ← Option.some.inj hconn, hws]
        rfl

/-! ## Without the times -/

/-- A call without its times; `Write` does nothing to the server. -/
def untimedCall : TimedCall σ → List (Call σ)
  | .registerRequestHandler uri handler => [.registerRequestHandler uri handler]
  | .closeConn id del => [.closeConn id del]
  | .write .. => []
  | .poll p => [.poll (p.events.map fun events => events.map TimedEvent.event)]

variable (regexMatch) in
private theorem server_timesAfter (t : TimedServer σ) (e : TimedEvent σ) (s : ServerState σ) :
    (timesAfter regexMatch t e s).server = s := by
  have hwrites : ∀ (writes : List (Nat × Nat)) (t : TimedServer σ),
      (writeAll t writes).server = t.server := by
    intro writes
    unfold writeAll
    induction writes with
    | nil => exact fun _ => rfl
    | cons write writes ih =>
      intro t
      rw [List.foldl_cons, ih]
      split <;> rfl
  unfold timesAfter
  cases e.event with
  | server answer => rfl
  | client ce =>
    dsimp only
    split
    · rw [hwrites]
      split <;> split <;> rfl
    · split <;> split <;> rfl

private theorem server_pingAll (t : TimedServer σ) (delays : Nat → TimedServer.PingDelays) :
    (t.pingAll delays).server = t.server := by
  unfold TimedServer.pingAll
  generalize t.server.pendingConns = clients
  induction clients generalizing t with
  | nil => rfl
  | cons c clients ih =>
    rw [List.foldl_cons, ih]
    unfold TimedServer.pingOne TimedServer.serverPing
    dsimp only
    split
    · split <;> rfl
    · rfl

variable (regexMatch) in
/-- The loop over the events, without the times. -/
private theorem untimed_events (t : TimedServer σ) (events : List (TimedEvent σ)) :
    stateAfter ((events.map TimedEvent.event).foldlM (pollOne regexMatch true) t.server) =
      (match events.foldlM (pollOneTimed regexMatch) t with
        | .ok t => some t
        | .error t => t).map TimedServer.server := by
  induction events generalizing t with
  | nil => rfl
  | cons e events ih =>
    rw [List.map_cons, List.foldlM_cons, List.foldlM_cons]
    unfold pollOneTimed
    cases pollOne regexMatch true t.server e.event with
    | ok s =>
      have hserver := server_timesAfter regexMatch t e s
      have hrest := ih (timesAfter regexMatch t e s)
      rw [hserver] at hrest
      exact hrest
    | error exit => cases exit <;> rfl

private theorem step_poll (s : ServerState σ) (events : List (PollEvent σ)) :
    step regexMatch true s (.poll (some events)) =
      stateAfter (events.foldlM (pollOne regexMatch true) s) := by
  unfold step poll
  dsimp only
  cases events.foldlM (pollOne regexMatch true) s with
  | ok s' => rfl
  | error exit => cases exit <;> rfl

private theorem untimed_step (t : TimedServer σ) (call : TimedCall σ) :
    (untimedCall call).foldlM (step regexMatch true) t.server =
      (timedStep regexMatch t call).map TimedServer.server := by
  cases call with
  | registerRequestHandler uri handler => rfl
  | closeConn id del => rfl
  | write id elapsed =>
    show some t.server = some (writeAll t [(id, elapsed)]).server
    unfold writeAll
    rw [List.foldl_cons, List.foldl_nil]
    split <;> rfl
  | poll p =>
    -- the pings change the times and nothing else
    have hserver : ((TimedServer.pingAll { t.now p.before with
        lastPass := (t.now p.before).clock } p.delays).now p.waited).server = t.server :=
      server_pingAll _ p.delays
    unfold untimedCall timedStep pollTimed
    dsimp only
    rw [List.foldlM_cons]
    cases p.events with
    | none =>
      show some t.server = some _
      rw [hserver]
    | some events =>
      have hevents := untimed_events regexMatch
        ((TimedServer.pingAll { t.now p.before with
          lastPass := (t.now p.before).clock } p.delays).now p.waited) events
      rw [hserver, ← step_poll] at hevents
      dsimp only [Option.map_some]
      rw [hevents]
      exact bind_pure _

/-- One call, without the times. -/
theorem timedStep_untimed {t t' : TimedServer σ} {call : TimedCall σ}
    (hstep : timedStep regexMatch t call = some t') :
    (untimedCall call).foldlM (step regexMatch true) t.server = some t'.server := by
  rw [untimed_step, hstep]
  rfl

/-- **Pings do nothing to the connections.** A run with times is a run without them, and the
    other way round: whatever the clock shows, the server comes to the same state. -/
theorem untimed (user : σ) (calls : List (TimedCall σ)) :
    (calls.flatMap untimedCall).foldlM (step regexMatch true) { user } =
      (calls.foldlM (timedStep regexMatch) { server := { user } }).map TimedServer.server := by
  have hrun : ∀ t : TimedServer σ,
      (calls.flatMap untimedCall).foldlM (step regexMatch true) t.server =
        (calls.foldlM (timedStep regexMatch) t).map TimedServer.server := by
    induction calls with
    | nil => exact fun _ => rfl
    | cons call calls ih =>
      intro t
      rw [List.flatMap_cons, List.foldlM_append, untimed_step, List.foldlM_cons]
      cases timedStep regexMatch t call with
      | none => rfl
      | some t' => exact ih t'
  exact hrun { server := { user } }

/-! ## Runs -/

/-- What holds between two calls. -/
structure Timely (t : TimedServer σ) : Prop where
  clients : Inv t.server
  times : Times t
  /-- When `Poll` began, no WebSocket connection had been idle for too long, or it was pinged
      since. -/
  recent : ∀ c ∈ t.server.pendingConns, c.conn.wsConn.isSome = true →
    t.lastPass ≤ t.lastIoTime c.id + seconds HPL_ENABLE_PING_PONG

namespace Timely

variable {t t' : TimedServer σ}

/-- The times go on, and the connections stay what they are. -/
private theorem later (h : Timely t) (htimes : Times t') (hlater : Later t t') : Timely t' := by
  refine ⟨by rw [hlater.server]; exact h.clients, htimes, ?_⟩
  intro c hc hws
  rw [hlater.server] at hc
  have hrecent := h.recent c hc hws
  have hgrow := hlater.lastIoTime c.id
  rw [hlater.lastPass]
  omega

private theorem closeConn (h : Timely t) (id : Nat) (del : Bool) :
    Timely { t with server := (t.server.closeConn id del).2 } := by
  refine ⟨h.clients.closeConn id del, h.times.withServer _, ?_⟩
  intro c hc
  rcases closeConn_cases h.clients id del with heq | ⟨_, -, -, -, heq⟩
  · rw [heq] at hc
    exact h.recent c hc
  · rw [heq] at hc
    exact h.recent c (List.mem_of_mem_filter hc)

/-- The first loop of `Poll`. -/
private theorem pingAll (h : Timely t) (before : Nat) (delays : Nat → TimedServer.PingDelays) :
    Timely (TimedServer.pingAll { t.now before with lastPass := (t.now before).clock } delays) := by
  have htimes : Times { t.now before with lastPass := (t.now before).clock } := by
    have hnow := h.times.now before
    exact ⟨Nat.le_refl _, hnow.past, hnow.marked, hnow.spaced, hnow.buffers⟩
  -- all clients have a descriptor, so that each ping is written
  have hfd : ∀ c ∈ t.server.pendingConns, c.conn.fd ≠ -1 := by
    intro c hc
    have hopen : 0 ≤ c.conn.fd := (h.clients.opened c hc).1
    omega
  have hpings := htimes.foldl_pingOne delays hfd
  change Times (TimedServer.pingAll _ delays) ∧ Later _ (TimedServer.pingAll _ delays) ∧
    ∀ c ∈ t.server.pendingConns, c.conn.wsConn.isSome = true →
      _ ≤ (TimedServer.pingAll _ delays).lastIoTime c.id + _ at hpings
  obtain ⟨htimes', hlater, hrecent⟩ := hpings
  constructor
  · rw [hlater.server]
    exact h.clients
  · exact htimes'
  · intro c hc hws
    rw [hlater.server] at hc
    rw [hlater.lastPass]
    exact hrecent c hc hws

/-- One round of the loop over the events. -/
private theorem pollOneTimed (h : Timely t) {e : TimedEvent σ} :
    (∀ t', pollOneTimed regexMatch t e = .ok t' → Timely t') ∧
      ∀ t', pollOneTimed regexMatch t e = .error (some t') → Timely t' := by
  unfold Server.pollOneTimed
  -- the connections that are new among the WebSocket connections have a new time
  have hafter : ∀ s' t', stateAfter (pollOne regexMatch true t.server e.event) = some s' →
      Times t' → Later { t with server := s' } t' →
      (∀ ce, e.event = .client ce → setsTime regexMatch t.server ce = true →
        t.clock ≤ t'.lastIoTime ce.id) → Timely t' := by
    intro s' t' hs' htimes hlater hset
    refine ⟨by rw [hlater.server]; exact h.clients.pollOne hs', htimes, ?_⟩
    intro c hc hws
    rw [hlater.server] at hc
    rw [hlater.lastPass]
    rcases upgraded_pollOne h.clients hs' c hc hws with ⟨c₁, hc₁, hid, hws₁⟩ | ⟨ce, hce, hid, hs⟩
    · have hrecent := h.recent c₁ hc₁ hws₁
      have hgrow := hlater.lastIoTime c.id
      rw [hid] at hrecent
      dsimp only at hgrow ⊢
      omega
    · -- upgraded in this event, so after `Poll` began
      have hnew := hset ce hce hs
      have hpass := h.times.pass
      rw [hid] at hnew
      dsimp only
      omega
  cases hone : pollOne regexMatch true t.server e.event with
  | ok s =>
    refine ⟨?_, nofun⟩
    intro t' ht'
    cases ht'
    obtain ⟨htimes, hlater, hset⟩ := h.times.timesAfter regexMatch e s
    exact hafter s _ (congrArg stateAfter hone) htimes hlater hset
  | error exit =>
    refine ⟨by cases exit <;> nofun, ?_⟩
    intro t' ht'
    cases exit with
    | returned ret s =>
      cases ht'
      apply hafter s _ (congrArg stateAfter hone) (h.times.withServer s) (Later.refl _)
      -- only an event of the listening socket ends `Poll` so
      intro ce hce
      have hround := pollOne_round regexMatch true t.server e.event
      rw [hone, hce] at hround
      cases hround
    | dangling id => cases ht'
    | down => cases ht'

/-- The loop over the events, by induction on them. -/
private theorem foldlM_pollOneTimed (h : Timely t) {events : List (TimedEvent σ)}
    (hevents : (match events.foldlM (Server.pollOneTimed regexMatch) t with
      | .ok t => some t
      | .error t => t) = some t') : Timely t' := by
  induction events generalizing t with
  | nil =>
    cases hevents
    exact h
  | cons e events ih =>
    rw [List.foldlM_cons] at hevents
    cases hone : Server.pollOneTimed regexMatch t e with
    | ok t₁ =>
      rw [hone] at hevents
      exact ih (h.pollOneTimed.1 t₁ hone) hevents
    | error exit =>
      -- `Poll` returns before the other events
      rw [hone] at hevents
      obtain rfl : exit = some t' := hevents
      exact h.pollOneTimed.2 t' hone

/-- One call. -/
private theorem step (h : Timely t) {call : TimedCall σ}
    (hstep : timedStep regexMatch t call = some t') : Timely t' := by
  cases call with
  | registerRequestHandler uri handler =>
    cases hstep
    exact ⟨h.clients.registerRequestHandler uri handler, h.times.withServer _, h.recent⟩
  | closeConn id del =>
    cases hstep
    exact h.closeConn id del
  | write id elapsed =>
    cases hstep
    obtain ⟨htimes, hlater⟩ := h.times.writeAll [(id, elapsed)]
    exact h.later htimes hlater
  | poll p =>
    have hpings := h.pingAll p.before p.delays
    have hbegin := hpings.later (hpings.times.now p.waited) (Later.now _ p.waited)
    unfold timedStep pollTimed at hstep
    dsimp only at hstep
    cases hevents : p.events with
    | none =>
      -- `epoll_wait(2)` has failed
      rw [hevents] at hstep
      cases hstep
      exact hbegin
    | some events =>
      rw [hevents] at hstep
      dsimp only at hstep
      exact foldlM_pollOneTimed hbegin hstep

end Timely

/-- What holds of the times holds after every run. -/
private theorem timely_run {user : σ} {calls : List (TimedCall σ)} {t : TimedServer σ}
    (hrun : calls.foldlM (timedStep regexMatch) { server := { user } } = some t) : Timely t :=
  Runs.invariant (P := fun _ _ => True) (fun _ _ _ h _ hstep => h.step hstep)
    ⟨inv_init user, Times.init user, fun _ hc => absurd hc List.not_mem_nil⟩
    (Runs.along_of_forall (fun _ _ _ => trivial) _) hrun

/-- **Idle connections.** After every run, a WebSocket connection of the server has been idle
    for at most ten seconds and the time since the last call of `Poll` began: until then it was
    not idle for longer, or it was pinged. -/
theorem idle_bound (user : σ) (calls : List (TimedCall σ)) :
    ∀ t, calls.foldlM (timedStep regexMatch) { server := { user } } = some t →
      ∀ c ∈ t.server.pendingConns, c.conn.wsConn.isSome = true →
        t.lastPass ≤ t.clock ∧ t.lastIoTime c.id ≤ t.clock ∧
          t.clock - t.lastIoTime c.id ≤
            seconds HPL_ENABLE_PING_PONG + (t.clock - t.lastPass) := by
  intro t hrun c hc hws
  have h := timely_run hrun
  have hpass := h.times.pass
  have hpast := h.times.past c.id
  have hrecent := h.recent c hc hws
  omega

/-- **Pings are spaced out.** In every run, a ping comes more than ten seconds after everything
    that set the time of the connection before: the upgrade, a read, a write or a ping. Left out
    is only what the `Write` of a ping sets, which `ServerPing` sets back to the time of the ping
    before anything reads it. What is handed to `write(2)` for a ping is a frame that the RFC
    reads as an empty ping. -/
theorem pings_spaced (user : σ) (calls : List (TimedCall σ)) :
    ∀ t, calls.foldlM (timedStep regexMatch) { server := { user } } = some t →
      (t.marks.Pairwise fun a b =>
        b.isPing = true → a.stays = true → a.id = b.id →
          a.time + seconds HPL_ENABLE_PING_PONG < b.time) ∧
      ∀ id time buffers, .ping id time buffers ∈ t.marks → ∀ rest,
        Rfc6455.decodeFrame (buffers.flatten ++ rest) =
          some (messageFrame [] .kTypePing, rest) := by
  intro t hrun
  have h := (timely_run hrun).times
  refine ⟨h.spaced, ?_⟩
  intro id time buffers hmem rest
  -- the two buffers together are a frame
  have hframe : buffers.flatten = (messageFrame [] .kTypePing).encode := by
    rw [h.buffers id time buffers hmem, ← wsFrame_eq_encode (by decide)]
    rfl
  rw [hframe]
  exact Rfc6455.decodeFrame_encode (messageFrame [] .kTypePing) (by decide) rest

/-- The request for an upgrade, in one event of the first connection. -/
private def upgradeEvent : ClientEvent Unit :=
  .plain 0 ⟨ascii "GET / HTTP/1.1" ++ crlf ++ ascii "Upgrade: websocket" ++ crlf ++
    ascii "Connection: Upgrade" ++ crlf ++ ascii "Sec-WebSocket-Key: abc" ++ crlf ++ crlf,
    [.ready 999]⟩

/-- A connection is upgraded at 1 s and pinged at 12 s, where `Write` takes five seconds; the next
    call of `Poll` comes six seconds later. -/
private def slowPing : List (TimedCall Unit) :=
  [.registerRequestHandler (ascii "*") {},
    .poll { events := some [{ event := .server ⟨some 5, true, true⟩ }] },
    .poll { before := seconds 1, events := some [{ event := .client upgradeEvent }] },
    .poll { before := seconds 11, delays := fun _ => ⟨0, seconds 5⟩, events := none },
    .poll { before := seconds 6, events := none }]

/-- It is pinged again then, six seconds after that `Write` and eleven after the ping. -/
theorem pings_spaced_slow_write :
    ∃ t : TimedServer Unit,
      slowPing.foldlM (timedStep fun p t => some (simpleMatch p t)) { server := { user := () } } =
        some t ∧
      t.marks = [.io 0 (seconds 1),
        .pingWrite 0 (seconds 17), .ping 0 (seconds 12) [[0x89, 0], []],
        .pingWrite 0 (seconds 23), .ping 0 (seconds 23) [[0x89, 0], []]] ∧
      (t.marks.Pairwise fun a b =>
        b.isPing = true → a.stays = true → a.id = b.id →
          a.time + seconds HPL_ENABLE_PING_PONG < b.time) := by
  obtain ⟨t, hrun, hmarks⟩ := Option.map_eq_some_iff.mp (show
    (slowPing.foldlM (timedStep fun p t => some (simpleMatch p t))
        { server := { user := () } }).map TimedServer.marks =
      some [.io 0 (seconds 1),
        .pingWrite 0 (seconds 17), .ping 0 (seconds 12) [[0x89, 0], []],
        .pingWrite 0 (seconds 23), .ping 0 (seconds 23) [[0x89, 0], []]] by decide +kernel)
  exact ⟨t, hrun, hmarks, (pings_spaced () slowPing t hrun).1⟩

/-- A connection is upgraded, is idle for eleven seconds, and then for four. -/
private def quiet : List (TimedCall Unit) :=
  [.registerRequestHandler (ascii "*") {},
    .poll { events := some [{ event := .server ⟨some 5, true, true⟩ }] },
    .poll { before := seconds 1, events := some [{ event := .client upgradeEvent }] },
    .poll { before := seconds 11, events := none },
    .poll { before := seconds 4, events := some [] }]

/-- It is still there, and has been idle for four seconds. -/
theorem idle_bound_quiet :
    ∃ t : TimedServer Unit,
      quiet.foldlM (timedStep fun p t => some (simpleMatch p t)) { server := { user := () } } =
        some t ∧
      t.clock = seconds 16 ∧ t.lastPass = seconds 16 ∧ t.lastIoTime 0 = seconds 12 ∧
      ∃ c ∈ t.server.pendingConns, c.id = 0 ∧
        t.clock - t.lastIoTime c.id ≤
          seconds HPL_ENABLE_PING_PONG + (t.clock - t.lastPass) := by
  obtain ⟨t, hrun, ht⟩ := Option.map_eq_some_iff.mp (show
    (quiet.foldlM (timedStep fun p t => some (simpleMatch p t)) { server := { user := () } }).map
        (fun t => (t.clock, t.lastPass, t.lastIoTime 0,
          t.server.pendingConns.map fun c => (c.id, c.conn.wsConn.isSome))) =
      some (seconds 16, seconds 16, seconds 12, [(0, true)]) by decide +kernel)
  obtain ⟨hclock, hrest⟩ := Prod.mk.inj ht
  obtain ⟨hpass, hrest⟩ := Prod.mk.inj hrest
  obtain ⟨hlast, hclients⟩ := Prod.mk.inj hrest
  have hmem : (0, true) ∈ t.server.pendingConns.map fun c => (c.id, c.conn.wsConn.isSome) := by
    rw [hclients]
    exact List.mem_cons_self
  obtain ⟨c, hc, hpair⟩ := List.mem_map.mp hmem
  obtain ⟨hid, hws⟩ := Prod.mk.inj hpair
  exact ⟨t, hrun, hclock, hpass, hlast, c, hc, hid, (idle_bound () quiet t hrun c hc hws).2.2⟩

end Httpoll.Native.Server
