import Httpoll.Native.BroadcastContext
import Httpoll.Spec.BroadcastDelivery
import Httpoll.Spec.ConnectionLog
import Httpoll.Spec.HookSteps

/-!
# The members of the broadcast example

The connect hook takes a connection into the group, and nothing takes it out. So each WebSocket
client that the server holds is a member once, and a client that is gone stays one: the next
`Broadcast` that gets to its loops dereferences it.

## Key results

- `Joins.event`: how often the connect hook is called on a connection
- `poll_members`, `broadcast_members`: the members are those for which the hook was called
- `broadcast_subscribers`: what this means for the clients and the broadcasts of every run
-/

namespace Httpoll.Native

open Server Connection

variable {regexMatch : Bytes → Bytes → Option Bool} {pingPong : Bool} {pipes : Nat → Option Nat}

/-! ## The calls of the connect hook -/

section Joins

variable {σ : Type} {table : HandlerTable σ} {c : Connection σ} {s s' : Socket} {user : σ}

/-- A call of the connect hook. -/
def isJoin : Effect → Bool
  | .wsConnectHook _ => true
  | _ => false

/-- A connect hook is registered. -/
def HasConnectHook (handlers : RequestHandler σ) : Prop := handlers.wsConnectHook.isSome = true

/-- The connect hook is called once for a connection that was upgraded, and not before. -/
def Joins : Option (Connection σ) → List Effect → Prop
  | none, effects => effects.countP isJoin ≤ 1
  | some c, effects => effects.countP isJoin = if c.wsConn.isSome then 1 else 0

private theorem countP_callHook_close (hook : Option (WsHook σ)) (user : σ) :
    (callHook hook [] (.wsWillCloseHook []) 0 user).2.2.countP isJoin = 0 := by
  cases hook <;> rfl

private theorem countP_callHook_ready (hook : Option (WsHook σ)) (uri : Bytes) (n : Int)
    (user : σ) : (callHook hook uri (.wsReadyHook uri) n user).2.2.countP isJoin = 0 := by
  cases hook <;> rfl

/-- A frame calls no connect hook. -/
private theorem countP_afterRead (ws : WebsocketConnection σ)
    (o : WebsocketConnection.ReadOutcome σ) : (afterRead ws o).effects.countP isJoin = 0 := by
  have hframe : ((o.call.map fun (opcode, payload) => Effect.onData opcode payload).toList ++
      o.writes.map Effect.write).countP isJoin = 0 := by
    rw [List.countP_eq_zero]
    intro effect heffect
    rcases List.mem_append.mp heffect with heffect | heffect
    · obtain ⟨call, -, rfl⟩ := Option.map_eq_some_iff.mp (Option.mem_toList.mp heffect)
      simp [isJoin]
    · obtain ⟨bytes, -, rfl⟩ := List.mem_map.mp heffect
      simp [isJoin]
  unfold afterRead
  dsimp only
  split
  · dsimp only
    -- neither does the close hook, nor `CloseConn`
    rw [List.countP_append, List.countP_append, hframe, countP_callHook_close]
    rfl
  · exact hframe

/-- The upgrade calls the connect hook, whatever it and the ready hook return. -/
private theorem countP_upgrade {handlers : RequestHandler σ} (hhook : HasConnectHook handlers)
    (ws : WebsocketConnection σ) : (upgrade handlers ws c user).effects.countP isJoin = 1 := by
  obtain ⟨hook, hhook⟩ := Option.isSome_iff_exists.mp hhook
  have hwrite : (connWrite c (.switchProtocols c.parser.version ws.wsKey)).countP isJoin = 0 := by
    unfold connWrite
    split <;> rfl
  -- the connect hook is registered, so it is called
  have hconnect : callHook handlers.wsConnectHook c.parser.uri (.wsConnectHook c.parser.uri) 0
      user = ((hook user c.parser.uri).1, (hook user c.parser.uri).2,
        [.wsConnectHook c.parser.uri]) := by
    rw [hhook]
    rfl
  have hready := countP_callHook_ready handlers.wsReadyHook c.parser.uri
    (hook user c.parser.uri).1 (hook user c.parser.uri).2
  unfold upgrade
  simp only [hconnect]
  -- nothing behind it calls it again, whatever the hooks return
  split
  · rfl
  · generalize callHook handlers.wsReadyHook c.parser.uri (.wsReadyHook c.parser.uri) _ _ =
      answer at hready ⊢
    obtain ⟨n, user', ready⟩ := answer
    dsimp only at hready ⊢
    split
    · simp only [List.countP_append, hwrite, hready]
      rfl
    · simp only [List.countP_append, hwrite, hready]
      rfl

/-- The dispatch of a request calls the connect hook when it upgrades the connection. -/
private theorem countP_dispatch {ret : Int} (hall : table.All HasConnectHook)
    (hplain : c.wsConn = none) {r : Served σ} (h : dispatch regexMatch table ret c user = .ok r) :
    r.effects.countP isJoin =
      if (connAfterDispatch regexMatch table ret c user).wsConn.isSome then 1 else 0 := by
  unfold connAfterDispatch
  cases dispatch_answered h with
  | notFound hfind =>
    simp only [hfind, hplain]
    unfold connWrite
    split <;> rfl
  | @upgraded handlers hfind hup ws c' hws =>
    -- the handlers that were found are registered, so they have a connect hook
    obtain ⟨pattern, hmem⟩ := findEntry_mem hfind
    simp only [hfind, hup, if_true, hws, upgradeToWebsocket_wsConn hws, Option.isSome_some]
    exact countP_upgrade (hall _ hmem) ws
  | @called handlers hfind hup handler hat =>
    simp only [hfind, hup, Bool.false_eq_true, if_false, hat]
    cases handler with
    | none =>
      simp only [hplain]
      rfl
    | some handler =>
      simp only [hplain]
      unfold callHandler
      dsimp only
      split <;> rfl

/-- **One event.** -/
theorem Joins.event {effects : List Effect} (h : Joins (some c) effects)
    (hall : table.All HasConnectHook) {r : Served σ}
    (hserved : pollEvent regexMatch pingPong table c s user = some (.served r s')) :
    Joins (some (connAfter regexMatch pingPong table c s user)) (effects ++ r.effects) := by
  unfold Joins at h ⊢
  dsimp only at h ⊢
  rw [List.countP_append, h]
  unfold connAfter
  cases pollEvent_served hserved with
  -- a connection that was upgraded stays so, and one that was not calls no hook but in the dispatch
  | websocket hws hanswers hread =>
    obtain ⟨buffer, lastPayload, hconn⟩ := websocketRead_conn hws hread
    simp only [hws, hanswers, hread, hconn, countP_afterRead]
    rfl
  | failed hplain hcall =>
    have hret : ¬ ((-2 : Int) = 1 ∨ (-2 : Int) = 0) := by omega
    simp only [hplain, hcall, if_neg hret, processDataIn_wsConn hcall]
    rfl
  | dispatched hdisp hr =>
    obtain ⟨log, hcall⟩ := hdisp.call
    simp only [hdisp.plain, hcall, if_pos hdisp.ret_eq.symm]
    rw [countP_dispatch hall ((processDataIn_wsConn hcall).trans hdisp.plain) hr]
    simp
  | incomplete hplain hret hcall =>
    simp only [hplain, hcall, if_neg (not_or.mpr hret.symm), processDataIn_wsConn hcall]
    rfl

theorem Joins.le_one {c : Option (Connection σ)} {effects : List Effect} (h : Joins c effects) :
    effects.countP isJoin ≤ 1 := by
  cases c with
  | none => exact h
  | some c =>
    unfold Joins at h
    dsimp only at h
    split at h <;> omega

variable (σ) in
private theorem account_joins :
    Account regexMatch pingPong HasConnectHook (fun _ => True) (Joins (σ := σ)) := by
  apply Account.of_connAfter
  · exact Nat.zero_le 1
  · exact fun fd _ => rfl
  · exact fun table c s s' user effects r hall _ h hserved => h.event hall hserved
  · exact fun c effects h => h.le_one

end Joins

/-! ## The members -/

namespace BroadcastContext

variable {ctx ctx' : BroadcastContext}

/-- The connections for which the connect hook was called, in this order. -/
def joined (log : List (Nat × Effect)) : List Nat :=
  (log.filter fun entry => isJoin entry.2).map Prod.fst

theorem count_joined (log : List (Nat × Effect)) (id : Nat) :
    (joined log).count id = (effectsOf log id).countP isJoin := by
  unfold joined effectsOf
  induction log with
  | nil => rfl
  | cons entry log ih =>
    obtain ⟨id', effect⟩ := entry
    by_cases hid : id' = id
    · cases hjoin : isJoin effect <;> simp [hid, hjoin, ih]
    · cases hjoin : isJoin effect <;> simp [hid, hjoin, ih]

/-- Those of them that have got a pipe. -/
def subscribed (pipes : Nat → Option Nat) (log : List (Nat × Effect)) : List Nat :=
  (joined log).filter fun id => (pipes id).isSome

variable (pipes) in
private theorem members_onWsConnected (bg : BroadcastGroup) (log : List (Nat × Effect)) :
    (log.foldl (onWsConnected pipes) bg).connections.map Member.conn =
        bg.connections.map Member.conn ++ subscribed pipes log ∧
      (log.foldl (onWsConnected pipes) bg).pipe = bg.pipe := by
  induction log generalizing bg with
  | nil => exact ⟨(List.append_nil _).symm, rfl⟩
  | cons entry log ih =>
    obtain ⟨id, effect⟩ := entry
    rw [List.foldl_cons, (ih _).1, (ih _).2]
    -- only the connect hook calls `Join`
    cases effect with
    | wsConnectHook uri =>
      cases hpipe : pipes id with
      | none => simp [onWsConnected, BroadcastGroup.join, subscribed, joined, isJoin, hpipe]
      | some capacity =>
        simp [onWsConnected, BroadcastGroup.join, subscribed, joined, isJoin, hpipe]
    | _ => exact ⟨rfl, rfl⟩

/-- The members are the connections for which the hook was called, and that have got a pipe. -/
structure Members (pipes : Nat → Option Nat) (ctx : BroadcastContext) : Prop where
  conns : ctx.bg.connections.map Member.conn = subscribed pipes ctx.server.log
  pipe : ctx.bg.pipe.isSome = true

theorem poll_members (h : Members pipes ctx) {events : Option (List (PollEvent Unit))}
    (hpoll : ctx.poll regexMatch pingPong pipes events = some ctx') : Members pipes ctx' := by
  obtain ⟨server, hserver, rfl⟩ := Option.map_eq_some_iff.mp hpoll
  obtain ⟨more, hmore⟩ := log_isPrefix hserver
  -- what this `Poll` has logged
  have hdrop : server.log.drop ctx.server.log.length = more := by
    rw [← hmore, List.drop_left]
  obtain ⟨hconns, hpipe⟩ := members_onWsConnected pipes ctx.bg more
  constructor
  · show (List.foldl _ ctx.bg (server.log.drop _)).connections.map Member.conn = _
    rw [hdrop, hconns, h.conns, ← hmore]
    simp [subscribed, joined]
  · show (List.foldl _ ctx.bg (server.log.drop _)).pipe.isSome = true
    rw [hdrop, hpipe]
    exact h.pipe

/-- `Broadcast` goes on to its end when no member was freed, or one of its writes fails. -/
theorem broadcast_eq_none_iff (h : Members pipes ctx) (data : Bytes) (k : Transfers) :
    ctx.broadcast data k = none ↔
      (k.header.succeeds = true ∧ k.data.succeeds = true) ∧
        ∃ id ∈ ctx.bg.connections.map Member.conn, ctx.server.client? id = none := by
  unfold broadcast BroadcastGroup.dereferenced
  rw [ite_eq_right_iff]
  by_cases hwrites : k.header.succeeds = true ∧ k.data.succeeds = true
  · rw [if_pos ⟨h.pipe, hwrites⟩]
    simp [hwrites]
  · rw [if_neg fun hall => hwrites hall.2]
    simp [hwrites]

theorem broadcast_members (h : Members pipes ctx) {data : Bytes} {k : Transfers}
    (hbroadcast : ctx.broadcast data k = some ctx') :
    Members pipes ctx' ∧ ctx'.server = ctx.server := by
  obtain ⟨-, heq⟩ := Option.ite_none_right_eq_some.mp hbroadcast
  obtain rfl := Option.some.inj heq
  refine ⟨⟨?_, ?_⟩, rfl⟩
  · rw [← h.conns]
    exact BroadcastGroup.map_conn_broadcast ctx.bg data .kTypeText k
  · exact (BroadcastGroup.isSome_pipe_broadcast ctx.bg data .kTypeText k).trans h.pipe

/-! ## Runs of the example -/

/-- The call on the server in a round of the loop. -/
def MainRound.call (r : MainRound) : Call Unit := .poll r.events

private theorem mainRound_cases (h : Members pipes ctx) {r : MainRound}
    (hround : ctx.mainRound regexMatch pingPong pipes r = some ctx') :
    Members pipes ctx' ∧
      Server.step regexMatch pingPong ctx.server r.call = some ctx'.server := by
  obtain ⟨polled, hpoll, hrest⟩ := Option.bind_eq_some_iff.mp hround
  have hmembers := poll_members h hpoll
  obtain ⟨server, hserver, rfl⟩ := Option.map_eq_some_iff.mp hpoll
  -- `main` polls first, and then broadcasts or not
  cases hbroadcast : r.broadcast with
  | none =>
    rw [hbroadcast] at hrest
    obtain rfl := Option.some.inj hrest
    exact ⟨hmembers, hserver⟩
  | some k =>
    rw [hbroadcast] at hrest
    obtain ⟨hmembers', hsame⟩ := broadcast_members hmembers hrest
    rw [hsame]
    exact ⟨hmembers', hserver⟩

/-- The members, and the run of the server. -/
private theorem run_cases (h : Members pipes ctx) {rounds : List MainRound}
    (hrun : rounds.foldlM (mainRound regexMatch pingPong pipes) ctx = some ctx') :
    Members pipes ctx' ∧
      (rounds.map MainRound.call).foldlM (Server.step regexMatch pingPong) ctx.server =
        some ctx'.server := by
  have hstep : ∀ (ctx : BroadcastContext) (s : ServerState Unit) (r : MainRound)
      (ctx' : BroadcastContext), (Members pipes ctx ∧ ctx.server = s) → True →
      ctx.mainRound regexMatch pingPong pipes r = some ctx' →
      ∃ s', Server.step regexMatch pingPong s r.call = some s' ∧
        Members pipes ctx' ∧ ctx'.server = s' := by
    intro ctx s r ctx' ⟨h, hs⟩ _ hround
    obtain ⟨h', hserver⟩ := mainRound_cases h hround
    rw [← hs]
    exact ⟨ctx'.server, hserver, h', rfl⟩
  obtain ⟨s', hs', h', rfl⟩ := Runs.simulation MainRound.call hstep ⟨h, rfl⟩
    (Runs.along_of_forall (fun _ _ _ => trivial) _) hrun
  exact ⟨h', hs'⟩

private theorem members_start (capacity : Nat) : Members pipes (start (some capacity)) :=
  ⟨rfl, rfl⟩

/-- What the connect hook was called for on each connection. -/
private theorem accounted_joins {capacity : Nat} {rounds : List MainRound}
    (hrun : rounds.foldlM (mainRound regexMatch pingPong pipes) (start (some capacity)) =
      some ctx) (id : Nat) : Accounted Joins id ctx.server := by
  have hA : Account regexMatch pingPong HasConnectHook (fun _ => True) (Joins (σ := Unit)) :=
    account_joins Unit
  obtain ⟨-, hserver⟩ := run_cases (members_start capacity) hrun
  have hcalls : (registered :: rounds.map MainRound.call).foldlM
      (Server.step regexMatch pingPong) { user := () } = some ctx.server :=
    Runs.foldlM_cons_eq_some.mpr ⟨_, rfl, hserver⟩
  apply hA.run (hA.init id ()) HandlerTable.all_empty _ (fun _ _ _ _ _ => trivial) hcalls
  intro call hcall entry hentry
  rcases List.mem_cons.mp hcall with rfl | hcall
  · obtain rfl := List.mem_singleton.mp hentry
    rfl
  · -- nothing is registered in the loop
    obtain ⟨r, -, rfl⟩ := List.mem_map.mp hcall
    obtain ⟨e, he, hmem⟩ := List.mem_flatMap.mp hentry
    cases hevents : r.events with
    | none =>
      rw [hevents] at he
      exact absurd he List.not_mem_nil
    | some es =>
      rw [hevents] at he
      rw [(r.quiet es hevents e he).2] at hmem
      exact absurd hmem List.not_mem_nil

theorem mem_subscribed {log : List (Nat × Effect)} {id : Nat} :
    id ∈ subscribed pipes log ↔
      0 < (effectsOf log id).countP isJoin ∧ (pipes id).isSome = true := by
  rw [subscribed, List.mem_filter, ← count_joined, List.count_pos_iff]

theorem members_run {capacity : Nat} {rounds : List MainRound}
    (hrun : rounds.foldlM (mainRound regexMatch pingPong pipes) (start (some capacity)) =
      some ctx) : Members pipes ctx := (run_cases (members_start capacity) hrun).1

/-- Of the clients that the server holds, the members are the WebSocket clients that have got a
    pipe. -/
theorem mem_members_iff {capacity : Nat} {rounds : List MainRound}
    (hrun : rounds.foldlM (mainRound regexMatch pingPong pipes) (start (some capacity)) =
      some ctx) {c : Client Unit} (hc : c ∈ ctx.server.pendingConns) :
    c.id ∈ ctx.bg.connections.map Member.conn ↔
      c.conn.wsConn.isSome = true ∧ (pipes c.id).isSome = true := by
  have haccount := accounted_joins hrun c.id
  have hjoins := haccount.account
  rw [haccount.clients.client?_of_mem hc] at hjoins
  -- a client that was upgraded has called the hook once, another one never
  have hcount : (effectsOf ctx.server.log c.id).countP isJoin =
      if c.conn.wsConn.isSome then 1 else 0 := hjoins
  rw [(members_run hrun).conns, mem_subscribed, hcount]
  cases c.conn.wsConn <;> simp

/-- No connection is a member twice. -/
theorem nodup_members {capacity : Nat} {rounds : List MainRound}
    (hrun : rounds.foldlM (mainRound regexMatch pingPong pipes) (start (some capacity)) =
      some ctx) : (ctx.bg.connections.map Member.conn).Nodup := by
  have hjoined : (joined ctx.server.log).Nodup := by
    rw [List.nodup_iff_count_le_one]
    intro id
    rw [count_joined]
    exact (accounted_joins hrun id).account.le_one
  rw [(members_run hrun).conns]
  exact hjoined.filter _

/-- The group after the `Poll` of the next round. -/
theorem polled_run {capacity : Nat} {rounds : List MainRound}
    (hrun : rounds.foldlM (mainRound regexMatch pingPong pipes) (start (some capacity)) =
      some ctx) {r : MainRound} (hpoll : ctx.poll regexMatch pingPong pipes r.events = some ctx') :
    (rounds ++ [{ r with broadcast := none }]).foldlM (mainRound regexMatch pingPong pipes)
      (start (some capacity)) = some ctx' := by
  rw [Runs.foldlM_append_of_some hrun]
  refine Runs.foldlM_cons_eq_some.mpr ⟨ctx', ?_, rfl⟩
  simp only [mainRound, hpoll, Option.bind_eq_bind, Option.bind_some]
  rfl

/-- A member whose connection was freed stays one, and stays freed. -/
private theorem freed_member {capacity : Nat} {rounds more : List MainRound}
    (hrun : rounds.foldlM (mainRound regexMatch pingPong pipes) (start (some capacity)) =
      some ctx) {id : Nat} (hmember : id ∈ ctx.bg.connections.map Member.conn)
    (hgone : ctx.server.client? id = none)
    (hmore : more.foldlM (mainRound regexMatch pingPong pipes) ctx = some ctx') :
    id ∈ ctx'.bg.connections.map Member.conn ∧ ctx'.server.client? id = none := by
  obtain ⟨hmembers, -⟩ := run_cases (members_start capacity) hrun
  obtain ⟨hmembers', hserver⟩ := run_cases hmembers hmore
  have haccount := accounted_joins hrun id
  rw [hmembers.conns, mem_subscribed] at hmember
  -- a member has called the hook, so its number was given
  have hborn : id < ctx.server.nextId := by
    by_contra hnot
    have hnil := haccount.unborn (Nat.not_lt.mp hnot)
    rw [hnil] at hmember
    exact absurd hmember.1 (by decide)
  have hfreed := effectsOf_freed ⟨haccount.clients, hborn, hgone, rfl⟩ hserver
  refine ⟨?_, hfreed.gone⟩
  rw [hmembers'.conns, mem_subscribed, hfreed.logged]
  exact hmember

/-- **The members of the group.** Take a group whose own pipe was made. In every state that a run
    of the example reaches, no connection is a member twice, and of the clients that the server
    holds the members are the WebSocket clients that have got a pipe. As long as none of the
    members was freed, `Broadcast` can be called; once one was, every later round that comes to
    its loops dereferences it. -/
theorem broadcast_subscribers (capacity : Nat) (rounds : List MainRound) :
    ∀ ctx, rounds.foldlM (mainRound regexMatch pingPong pipes) (start (some capacity)) =
        some ctx →
      (ctx.bg.connections.map Member.conn).Nodup ∧
      (∀ c ∈ ctx.server.pendingConns, c.id ∈ ctx.bg.connections.map Member.conn ↔
        c.conn.wsConn.isSome = true ∧ (pipes c.id).isSome = true) ∧
      ((∀ id ∈ ctx.bg.connections.map Member.conn, (ctx.server.client? id).isSome = true) →
        ∀ data k, (ctx.broadcast data k).isSome = true) ∧
      ∀ id ∈ ctx.bg.connections.map Member.conn, ctx.server.client? id = none →
        ∀ (more : List MainRound) (r : MainRound) (k : Transfers), r.broadcast = some k →
          k.header.succeeds = true → k.data.succeeds = true →
          (more ++ [r]).foldlM (mainRound regexMatch pingPong pipes) ctx = none := by
  intro ctx hrun
  have hmembers := members_run hrun
  refine ⟨nodup_members hrun, fun c hc => mem_members_iff hrun hc, ?_, ?_⟩
  · intro halive data k
    rw [Option.isSome_iff_ne_none, ne_eq, broadcast_eq_none_iff hmembers]
    intro ⟨_, id, hid, hnone⟩
    have hsome := halive id hid
    rw [hnone] at hsome
    cases hsome
  · intro id hmember hgone more r k hbroadcast hheader hdata
    rw [Option.eq_none_iff_forall_ne_some]
    intro ctx' hall
    obtain ⟨ctx₁, hmore, hlast⟩ := Runs.foldlM_append_eq_some.mp hall
    obtain ⟨ctx₂, hround, -⟩ := Runs.foldlM_cons_eq_some.mp hlast
    obtain ⟨polled, hpoll, hrest⟩ := Option.bind_eq_some_iff.mp hround
    -- the group after the `Poll` of the last round
    have hmore' := Runs.foldlM_append_eq_some.mpr ⟨ctx, hrun, hmore⟩
    have hpolled := polled_run hmore' hpoll
    rw [List.append_assoc, Runs.foldlM_append_of_some hrun] at hpolled
    obtain ⟨hmember', hgone'⟩ := freed_member hrun hmember hgone hpolled
    obtain ⟨hmembers', -⟩ := run_cases hmembers hpolled
    rw [hbroadcast] at hrest
    have hnone := (broadcast_eq_none_iff hmembers' (ascii "hello world at ") k).mpr
      ⟨⟨hheader, hdata⟩, id, hmember', hgone'⟩
    exact absurd (hnone.symm.trans hrest) (by simp)

/-- A round in which one event comes. -/
private def oneEvent (e : PollEvent Unit) (h : e.closes = [] ∧ e.registers = [])
    (broadcast : Option Transfers) : MainRound where
  events := some [e]
  quiet := by
    intro es hes e' he'
    obtain rfl := Option.some.inj hes
    obtain rfl := List.mem_singleton.mp he'
    exact h
  broadcast := broadcast

private def accepting : Transfers where
  header := .accepts 99
  data := .accepts 99
  fill := fun _ => 99
  send := fun _ => 99

/-- A client is upgraded and broadcast to, and closes. -/
private def joinsAndCloses : List MainRound :=
  [oneEvent (.server ⟨some 5, true, true⟩) ⟨rfl, rfl⟩ none,
    oneEvent (.client (.plain 0 ⟨ascii "GET /broadcast HTTP/1.1" ++ crlf ++
      ascii "Upgrade: websocket" ++ crlf ++ ascii "Connection: Upgrade" ++ crlf ++
      ascii "Sec-WebSocket-Key: abc" ++ crlf ++ crlf, [.ready 999]⟩)) ⟨rfl, rfl⟩
      (some accepting),
    oneEvent (.client (.plain 0 ⟨[0x88, 0], [.ready 999]⟩)) ⟨rfl, rfl⟩ none]

/-- The next broadcast that comes to its loops dereferences its connection. -/
theorem broadcast_subscribers_closes :
    ∃ ctx : BroadcastContext,
      joinsAndCloses.foldlM (mainRound (fun p t => some (simpleMatch p t)) true fun _ => some 64)
        (start (some 64)) = some ctx ∧
      ∀ (more : List MainRound) (r : MainRound), r.broadcast = some accepting →
        (more ++ [r]).foldlM
          (mainRound (fun p t => some (simpleMatch p t)) true fun _ => some 64) ctx = none := by
  obtain ⟨ctx, hrun, hctx⟩ := Option.map_eq_some_iff.mp (show
    (joinsAndCloses.foldlM (mainRound (fun p t => some (simpleMatch p t)) true fun _ => some 64)
      (start (some 64))).map (fun ctx => (ctx.bg.connections.map Member.conn,
        (ctx.server.client? 0).isNone)) = some ([0], true) by
    decide +kernel)
  obtain ⟨hmembers, hgone⟩ := Prod.mk.inj hctx
  obtain ⟨-, -, -, hfreed⟩ := broadcast_subscribers 64 joinsAndCloses ctx hrun
  refine ⟨ctx, hrun, ?_⟩
  -- so every broadcast from there on comes to the entry of a freed connection
  intro more r hbroadcast
  have hmember : 0 ∈ ctx.bg.connections.map Member.conn := by
    rw [hmembers]
    exact List.mem_singleton_self 0
  exact hfreed 0 hmember (Option.isNone_iff_eq_none.mp hgone) more r accepting hbroadcast rfl rfl

end BroadcastContext

end Httpoll.Native
