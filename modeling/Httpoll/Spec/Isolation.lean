import Httpoll.Spec.ConnectionLog
import Httpoll.Spec.Handlers
import Httpoll.Spec.KeepAlive

/-!
# Connections do not disturb each other

`Poll` serves the connections of a server in whatever order their events come. When the
callbacks keep no state, and close and register nothing, that order does not matter: what
happens on a connection is what would happen if it were the only one of the server. This is
about what the events of the connections do, not about the pings that `ServerPing` writes.

## Key results

- `pollEvent_stateless`: an event of a connection does not depend on the user context
- `alone`: a run of the server, without everything that is about other connections, is a run
  of the server, and the connection comes to the same state with the same effects
-/

namespace Httpoll.Native

variable {σ : Type}

/-! ## Callbacks that keep no state -/

/-- The replies of the callbacks do not depend on the user context. -/
structure RequestHandler.Stateless (handlers : RequestHandler σ) : Prop where
  http : ∀ handler, some handler ∈ handlers.httpHandlers → ∀ user user' uri partialBody isFinal,
    (handler user uri partialBody isFinal).ret = (handler user' uri partialBody isFinal).ret ∧
      (handler user uri partialBody isFinal).partialBody =
        (handler user' uri partialBody isFinal).partialBody
  wsConnect : ∀ hook ∈ handlers.wsConnectHook, ∀ user user' uri,
    (hook user uri).1 = (hook user' uri).1
  wsReady : ∀ hook ∈ handlers.wsReadyHook, ∀ user user' uri,
    (hook user uri).1 = (hook user' uri).1
  wsMessage : ∀ onData ∈ handlers.wsMessageHandler, ∀ user user' opcode payload,
    (onData user opcode payload).1 = (onData user' opcode payload).1

/-- The callback that an upgraded connection keeps does not depend on the user context. What
    the close hook returns is not looked at. -/
def Connection.Stateless (c : Connection σ) : Prop :=
  ∀ ws, c.wsConn = some ws → ∀ onData ∈ ws.onData, ∀ user user' opcode payload,
    (onData user opcode payload).1 = (onData user' opcode payload).1

namespace Server

open Connection

variable {regexMatch : Bytes → Bytes → Option Bool} {pingPong : Bool} {table : HandlerTable σ}
  {c : Connection σ}

/-- Two outcomes of an event that differ in the user context only. -/
def Alike (r r' : Served σ) : Prop := r.conn = r'.conn ∧ r.effects = r'.effects

/-- The call of a hook does not depend on the user context. -/
private theorem callHook_stateless {hook : Option (WsHook σ)}
    (h : ∀ f ∈ hook, ∀ user user' uri, (f user uri).1 = (f user' uri).1) (uri : Bytes)
    (effect : Effect) (n : Int) (user user' : σ) :
    (callHook hook uri effect n user).1 = (callHook hook uri effect n user').1 ∧
      (callHook hook uri effect n user).2.2 = (callHook hook uri effect n user').2.2 := by
  cases hook with
  | none => exact ⟨rfl, rfl⟩
  | some f => exact ⟨h f rfl user user' uri, rfl⟩

private theorem upgrade_stateless {handlers : RequestHandler σ} (h : handlers.Stateless)
    (ws : WebsocketConnection σ) (user user' : σ) :
    Alike (upgrade handlers ws c user) (upgrade handlers ws c user') := by
  obtain ⟨hn, heffects⟩ := callHook_stateless h.wsConnect c.parser.uri
    (.wsConnectHook c.parser.uri) 0 user user'
  unfold upgrade
  dsimp only
  generalize callHook handlers.wsConnectHook c.parser.uri (.wsConnectHook c.parser.uri) 0 user =
    answer at hn heffects ⊢
  generalize callHook handlers.wsConnectHook c.parser.uri (.wsConnectHook c.parser.uri) 0 user' =
    answer' at hn heffects ⊢
  obtain ⟨n, u, connect⟩ := answer
  obtain ⟨n', u', connect'⟩ := answer'
  dsimp only at hn heffects ⊢
  -- the connect hook returns the same, so both go the same way
  subst hn heffects
  -- so does the ready hook, whatever the connect hook has left of the user context
  obtain ⟨hready, hreadyEffects⟩ := callHook_stateless h.wsReady c.parser.uri
    (.wsReadyHook c.parser.uri) n u u'
  rw [hready, hreadyEffects]
  split
  · exact ⟨rfl, rfl⟩
  · split <;> exact ⟨rfl, rfl⟩

/-- The handlers of the table keep no state, so neither does the one that is found. -/
private theorem stateless_of_find (h : table.All RequestHandler.Stateless) {uri : Bytes}
    {handlers : RequestHandler σ}
    (hfind : findRequestHandler regexMatch table uri = .ok (some handlers)) :
    handlers.Stateless := by
  obtain ⟨pattern, hmem⟩ := findEntry_mem hfind
  exact h _ hmem

private theorem mem_of_handlerAt {handlers : RequestHandler σ} {method : HttpMethod}
    {handler : Handler σ} (h : handlerAt handlers method = .ok (some handler)) :
    some handler ∈ handlers.httpHandlers := by
  unfold handlerAt at h
  split at h
  · rename_i hat
    cases h
    exact Vector.mem_of_getElem? hat
  · cases h

private theorem callHandler_stateless {handler : Option (Handler σ)}
    (h : ∀ f ∈ handler, ∀ user user' uri partialBody isFinal,
      (f user uri partialBody isFinal).ret = (f user' uri partialBody isFinal).ret ∧
        (f user uri partialBody isFinal).partialBody =
          (f user' uri partialBody isFinal).partialBody)
    (isFinal : Bool) (user user' : σ) :
    Alike (callHandler handler isFinal c user) (callHandler handler isFinal c user') := by
  cases handler with
  | none => exact ⟨rfl, rfl⟩
  | some f =>
    obtain ⟨hret, hbody⟩ := h f rfl user user' c.parser.uri c.partialBody isFinal
    unfold callHandler
    dsimp only
    -- the rest reads no user context
    rw [hret, hbody]
    split <;> exact ⟨rfl, rfl⟩

/-- The dispatch of a request. -/
private theorem dispatch_stateless (h : table.All RequestHandler.Stateless) {ret : Int}
    {user : σ} {r : Served σ} (hr : dispatch regexMatch table ret c user = .ok r) (user' : σ) :
    (∃ r', dispatch regexMatch table ret c user' = .ok r' ∧ Alike r r') ∧
      connAfterDispatch regexMatch table ret c user' =
        connAfterDispatch regexMatch table ret c user := by
  unfold dispatch connAfterDispatch
  cases dispatch_answered hr with
  | notFound hfind =>
    simp only [hfind, bind, Except.bind]
    exact ⟨⟨_, rfl, rfl, rfl⟩, trivial⟩
  | upgraded hfind hshould hws =>
    simp only [hfind, bind, Except.bind, hshould, if_true, hws]
    exact ⟨⟨_, rfl, upgrade_stateless (stateless_of_find h hfind) _ user user'⟩, trivial⟩
  | @called _ hfind hshould handler hat =>
    -- the handler that is called keeps no state, if there is one
    have hstateless := stateless_of_find h hfind
    have hhandler : ∀ f ∈ handler, ∀ user user' uri partialBody isFinal,
        (f user uri partialBody isFinal).ret = (f user' uri partialBody isFinal).ret ∧
          (f user uri partialBody isFinal).partialBody =
            (f user' uri partialBody isFinal).partialBody := by
      intro f hf
      obtain rfl : handler = some f := hf
      exact hstateless.http f (mem_of_handlerAt hat)
    simp only [hfind, bind, Except.bind, hshould, Bool.false_eq_true, if_false, hat]
    refine ⟨⟨_, rfl, callHandler_stateless hhandler _ user user'⟩, ?_⟩
    cases handler with
    | none => rfl
    | some f =>
      dsimp only
      rw [(hhandler f rfl user' user c.parser.uri c.partialBody (ret = 1)).2]

/-! ## Frames -/

/-- Two outcomes of a `Read` that differ in the user context only. -/
private structure AlikeRead (o o' : WebsocketConnection.ReadOutcome σ) : Prop where
  ret : o.ret = o'.ret
  conn : o.conn = o'.conn
  call : o.call = o'.call
  writes : o.writes = o'.writes

private theorem handleFrame_stateless {ws : WebsocketConnection σ}
    (h : ∀ onData ∈ ws.onData, ∀ user user' opcode payload,
      (onData user opcode payload).1 = (onData user' opcode payload).1)
    (frame : WebsocketConnection.RawFrame) (user user' : σ) :
    AlikeRead (ws.handleFrame pingPong c user frame) (ws.handleFrame pingPong c user' frame) := by
  unfold WebsocketConnection.handleFrame
  dsimp only
  split
  · exact ⟨rfl, rfl, rfl, rfl⟩
  split
  · exact ⟨rfl, rfl, rfl, rfl⟩
  split
  · exact ⟨rfl, rfl, rfl, rfl⟩
  split
  -- only a complete message is given to the user
  · cases honData : ws.onData with
    | none => exact ⟨rfl, rfl, rfl, rfl⟩
    | some onData => exact ⟨h onData honData user user' _ _, rfl, rfl, rfl⟩
  · exact ⟨rfl, rfl, rfl, rfl⟩

private theorem read_stateless {ws : WebsocketConnection σ}
    (h : ∀ onData ∈ ws.onData, ∀ user user' opcode payload,
      (onData user opcode payload).1 = (onData user' opcode payload).1)
    {result : ReadResult} {user : σ} {o : WebsocketConnection.ReadOutcome σ}
    (hread : ws.read pingPong c result user = .ok o) (user' : σ) :
    ∃ o', ws.read pingPong c result user' = .ok o' ∧ AlikeRead o o' := by
  unfold WebsocketConnection.read at hread ⊢
  dsimp only at hread ⊢
  split at hread
  · rename_i hneg
    rw [if_pos hneg]
    cases hread
    exact ⟨_, rfl, rfl, rfl, rfl, rfl⟩
  · rename_i hneg
    rw [if_neg hneg]
    -- the frame is decoded without the user context
    cases hframe : WebsocketConnection.readFrame (c.read result).2.buffer with
    | error f => rw [hframe] at hread; cases hread
    | ok frame =>
      rw [hframe] at hread
      cases hread
      exact ⟨_, rfl, handleFrame_stateless h frame user user'⟩

private theorem afterRead_alike {ws : WebsocketConnection σ}
    {o o' : WebsocketConnection.ReadOutcome σ} (h : AlikeRead o o') :
    Alike (afterRead ws o) (afterRead ws o') := by
  unfold afterRead
  rw [h.ret, h.conn, h.call, h.writes]
  dsimp only
  split
  · refine ⟨rfl, ?_⟩
    cases ws.willCloseHook <;> rfl
  · exact ⟨rfl, rfl⟩

/-! ## Events -/

/-- **An event does not depend on the user context**, when no callback keeps a state. -/
theorem pollEvent_stateless (h : table.All RequestHandler.Stateless) (hc : c.Stateless)
    {s s' : Socket} {user : σ} {r : Served σ}
    (hserved : pollEvent regexMatch pingPong table c s user = some (.served r s')) (user' : σ) :
    (∃ r', pollEvent regexMatch pingPong table c s user' = some (.served r' s') ∧ Alike r r') ∧
      connAfter regexMatch pingPong table c s user' =
        connAfter regexMatch pingPong table c s user := by
  unfold connAfter
  cases pollEvent_served hserved with
  | @websocket ws hws answer answers hanswers o hread =>
    -- the callback for messages is all that a `Read` gets the user context for
    obtain ⟨o', hread', halike⟩ := read_stateless (hc ws hws) hread user'
    simp only [pollEvent, pollWebsocket, hws, hanswers, hread, hread']
    exact ⟨⟨_, rfl, afterRead_alike halike⟩, halike.conn.symm⟩
  -- `ProcessDataIn` does not get it at all
  | failed hplain hcall =>
    simp only [pollEvent, pollHttp, hplain, hcall]
    exact ⟨⟨_, rfl, rfl, rfl⟩, rfl⟩
  | @dispatched ret c₁ _ hdisp _ hr =>
    obtain ⟨⟨r', hr', halike⟩, hafter⟩ := dispatch_stateless h hr user'
    obtain ⟨log, hcall⟩ := hdisp.call
    refine ⟨⟨r', ?_, halike⟩, ?_⟩
    · rw [hdisp.pollEvent_eq, hr']
      rfl
    · simp only [hdisp.plain, hcall, if_pos hdisp.ret_eq.symm, hafter]
  | incomplete hplain hret hcall hopen =>
    simp only [pollEvent, pollHttp, hplain, hcall, if_neg hopen, if_neg (not_or.mpr hret.symm)]
    exact ⟨⟨_, rfl, rfl, rfl⟩, trivial⟩

/-- Nor does the connection that it leaves come to keep a state. -/
private theorem connAfter_stateless (h : table.All RequestHandler.Stateless) (hc : c.Stateless)
    (s : Socket) (user : σ) :
    (connAfter regexMatch pingPong table c s user).Stateless := by
  unfold connAfter
  split
  · rename_i ws hws
    split
    · exact hc
    · split
      · rename_i o hread
        -- a frame leaves the callbacks of the connection as they are
        obtain ⟨buffer, lastPayload, hconn⟩ := websocketRead_conn hws hread
        rw [hconn]
        intro ws' hws'
        obtain rfl := Option.some.inj hws'
        exact hc ws hws
      · exact hc
  · rename_i hplain
    split
    · rename_i ret c₁ s₁ log hcall
      -- before the upgrade there are none
      have hplain₁ : c₁.wsConn = none := (processDataIn_wsConn hcall).trans hplain
      have hc₁ : c₁.Stateless := by
        intro ws hws
        cases hplain₁.symm.trans hws
      split
      · unfold connAfterDispatch
        split
        · rename_i handlers hfind
          split
          · unfold upgradeToWebsocket
            rw [hplain₁]
            dsimp only
            split
            · exact hc₁
            · intro ws hws
              obtain rfl := Option.some.inj hws
              -- the upgrade takes them from the entry that was found
              exact (stateless_of_find h hfind).wsMessage
          · split
            · exact hc₁
            · exact hc₁
        · exact hc₁
      · exact hc₁
    · exact hc

/-! ## The run of one connection -/

/-- The callbacks of the event neither close a connection nor register a handler. -/
def Apart : PollEvent σ → Prop
  | .server _ => True
  | .client e => e.closes = [] ∧ e.registers = []

/-- The event, for the only connection of a server. -/
def ownEvent (e : ClientEvent σ) : ClientEvent σ :=
  { ClientEvent.plain 0 e.socket with epollin := e.epollin, del := e.del }

/-- What an event is to the connection `id`: its acceptance, or an event of its own. -/
def aloneEvent (id : Nat) (s : ServerState σ) : PollEvent σ → List (Call σ)
  | .server answer =>
    if s.nextId = id ∧ answer.fd.isSome ∧ answer.setsockopt ∧ answer.add then
      [.poll (some [.server answer])]
    else []
  | .client e => if e.id = id then [.poll (some [.client (ownEvent e)])] else []

/-- What a call is to the connection `id`. -/
def aloneCall (regexMatch : (pattern text : Bytes) → Option Bool) (pingPong : Bool) (id : Nat)
    (s : ServerState σ) : Call σ → List (Call σ)
  | .registerRequestHandler uri handler => [.registerRequestHandler uri handler]
  | .poll events =>
    Runs.project (fun s e => (pollOne regexMatch pingPong s e).toOption) (aloneEvent id) s
      (events.getD [])
  | .closeConn id' del => if id' = id then [.closeConn 0 del] else []

/-- The run without everything that is about other connections than `id`. -/
def aloneCalls (regexMatch : (pattern text : Bytes) → Option Bool) (pingPong : Bool) (id : Nat)
    (s : ServerState σ) (calls : List (Call σ)) : List (Call σ) :=
  Runs.project (step regexMatch pingPong) (aloneCall regexMatch pingPong id) s calls

/-- The server `t` has the connection `id` of the server `s` as its only one. -/
structure Alone (id : Nat) (s t : ServerState σ) : Prop where
  clients : Inv s
  clients' : Inv t
  handlers : t.requestHandlers = s.requestHandlers
  stateless : s.requestHandlers.All RequestHandler.Stateless
  conn : (t.client? 0).map Client.conn = (s.client? id).map Client.conn
  connStateless : ∀ c, s.client? id = some c → c.conn.Stateless
  log : effectsOf t.log 0 = effectsOf s.log id
  born : s.nextId ≤ id ∧ t.nextId = 0 ∨ id < s.nextId ∧ t.nextId = 1
  /-- The other server has no descriptor but that of the connection. -/
  fds : ∀ fd ∈ t.openFds, ∃ c, s.client? id = some c ∧ c.fd = fd

namespace Alone

variable {id : Nat} {s t : ServerState σ}

theorem init (id : Nat) (user user' : σ) :
    Alone id ({ user } : ServerState σ) { user := user' } :=
  ⟨inv_init user, inv_init user', rfl, HandlerTable.all_empty, rfl,
    fun _ hc => (Option.some_ne_none _ hc.symm).elim, rfl, .inl ⟨Nat.zero_le id, rfl⟩,
    fun _ hfd => absurd hfd List.not_mem_nil⟩

/-- A change of the server that leaves the connection `id` as it is. -/
theorem congr (h : Alone id s t) {s' : ServerState σ} (hclients : Inv s')
    (hhandlers : s'.requestHandlers = s.requestHandlers)
    (hclient : s'.client? id = s.client? id) (hlog : effectsOf s'.log id = effectsOf s.log id)
    (hborn : s'.nextId ≤ id ↔ s.nextId ≤ id) : Alone id s' t := by
  refine ⟨hclients, h.clients', ?_, ?_, ?_, ?_, ?_, ?_, ?_⟩
  · rw [hhandlers]
    exact h.handlers
  · rw [hhandlers]
    exact h.stateless
  · rw [hclient]
    exact h.conn
  · rw [hclient]
    exact h.connStateless
  · rw [hlog]
    exact h.log
  · have := h.born
    omega
  · rw [hclient]
    exact h.fds

/-- The user closes another connection. -/
theorem closeConn_other (h : Alone id s t) {id' : Nat} (hid : id ≠ id') (del : Bool) :
    Alone id (s.closeConn id' del).2 t := by
  obtain ⟨hlog, hnext⟩ := closeConn_log s id' del
  apply h.congr (h.clients.closeConn id' del) (closeConn_requestHandlers s id' del)
  · rw [client?_closeConn, if_neg (fun heq => hid heq.1)]
  · rw [hlog]
  · rw [hnext]

/-- The connection is closed on both servers. -/
theorem closeConn_self (h : Alone id s t) (del : Bool) :
    Alone id (s.closeConn id del).2 (t.closeConn 0 del).2 := by
  obtain ⟨hlog, hnext⟩ := closeConn_log s id del
  obtain ⟨hlog', hnext'⟩ := closeConn_log t 0 del
  constructor
  · exact h.clients.closeConn id del
  · exact h.clients'.closeConn 0 del
  · rw [closeConn_requestHandlers, closeConn_requestHandlers]
    exact h.handlers
  · rw [closeConn_requestHandlers]
    exact h.stateless
  · rw [client?_closeConn, client?_closeConn]
    by_cases hdel : del = true
    · rw [if_pos ⟨rfl, hdel⟩, if_pos ⟨rfl, hdel⟩]
    · rw [if_neg (fun heq => hdel heq.2), if_neg (fun heq => hdel heq.2)]
      exact h.conn
  · intro c hc
    rw [client?_closeConn] at hc
    split at hc
    · cases hc
    · exact h.connStateless c hc
  · rw [hlog, hlog']
    exact h.log
  · rw [hnext, hnext']
    exact h.born
  · intro fd hfd
    rw [client?_closeConn]
    rcases closeConn_cases h.clients' 0 del with heq | ⟨c, hc, hid, rfl, heq⟩
    · rw [heq] at hfd
      obtain ⟨c, hc, hcfd⟩ := h.fds fd hfd
      split
      · rename_i hboth
        -- the other server has the connection too, so its descriptor was closed
        obtain ⟨c', hc', hconn⟩ := Option.map_eq_some_iff.mp
          (h.conn.trans (congrArg (Option.map Client.conn) hc))
        have hgone := client?_closeConn t 0 del 0
        rw [heq, if_pos ⟨rfl, hboth.2⟩, hc'] at hgone
        cases hgone
      · exact ⟨c, hc, hcfd⟩
    · rw [heq] at hfd
      obtain ⟨hmem, hne⟩ := List.mem_filter.mp hfd
      obtain ⟨c', hc', rfl⟩ := h.fds fd hmem
      have hconn := h.conn
      have hclient : t.client? 0 = some c := hid ▸ h.clients'.client?_of_mem hc
      rw [hclient, hc', Option.map_some, Option.map_some, Option.some.injEq] at hconn
      simp [Client.fd, hconn] at hne

/-- The handlers stay as they are when no callback registers one. -/
private theorem served_requestHandlers {e : ClientEvent σ} (hregisters : e.registers = [])
    (s : ServerState σ) (conn : Connection σ) (r : Served σ) :
    (served s e conn r).requestHandlers = s.requestHandlers := by
  unfold served
  dsimp only
  rw [hregisters]
  split <;> rfl

/-- An event whose callbacks close no connection. -/
private theorem afterServed_eq {e : ClientEvent σ} (hcloses : e.closes = []) (s : ServerState σ)
    (conn : Connection σ) (r : Served σ) :
    afterServed s e conn r =
      if r.conn.isNone then ((served s e conn r).closeConn e.id e.del).2
      else served s e conn r := by
  have hnone : (if r.effects.any Effect.isCallback then (served s e conn r).closeConns e.closes
      else served s e conn r) = served s e conn r := by
    rw [hcloses]
    exact ite_self _
  show (if r.conn.isNone then (ServerState.closeConn (if r.effects.any Effect.isCallback then
    (served s e conn r).closeConns e.closes else served s e conn r) e.id e.del).2 else
      if r.effects.any Effect.isCallback then (served s e conn r).closeConns e.closes
      else served s e conn r) = _
  rw [hnone]

/-- An event of another connection. -/
theorem afterServed_other (h : Alone id s t) {e : ClientEvent σ} (hapart : Apart (.client e))
    (hid : id ≠ e.id) {c : Client σ} (hc : s.client? e.id = some c) {conn : Connection σ}
    (hfd : conn.fd = c.fd) (r : Served σ) : Alone id (afterServed s e conn r) t := by
  -- the event changes another connection, and logs for that one
  have hserved : Alone id (served s e conn r) t := by
    apply h.congr (h.clients.served hc hfd r) (served_requestHandlers hapart.2 s conn r)
    · show (s.setConn e.id conn).client? id = s.client? id
      rw [client?_setConn]
      cases hclient : s.client? id with
      | none => rfl
      | some c' =>
        have hne : ¬ c'.id = e.id := fun heq => hid ((client?_eq_some hclient).2.symm.trans heq)
        rw [Option.map_some, if_neg hne]
    · show effectsOf (s.log ++ r.effects.map fun effect => (e.id, effect)) id = _
      rw [effectsOf_append, effectsOf_effects, if_neg hid, List.append_nil]
    · exact Iff.rfl
  rw [afterServed_eq hapart.1]
  split
  · exact hserved.closeConn_other hid e.del
  · exact hserved

/-- An event of the connection, on both servers. -/
theorem afterServed_self (h : Alone id s t) {e : ClientEvent σ} (hapart : Apart (.client e))
    (hid : e.id = id) {c c' : Client σ} (hc : s.client? id = some c) (hc' : t.client? 0 = some c')
    {conn : Connection σ} (hfd : conn.fd = c.fd) (hstateless : conn.Stateless) {r r' : Served σ}
    (halike : Alike r r') :
    Alone id (afterServed s e conn r) (afterServed t (ownEvent e) conn r') := by
  subst hid
  have hsame : c'.conn = c.conn := by
    have hconn := h.conn
    rw [hc, hc'] at hconn
    exact Option.some.inj hconn
  -- before any `CloseConn`, both servers hold the connection that the event leaves
  have hset : (served s e conn r).client? e.id = some { c with conn } := by
    show (s.setConn e.id conn).client? e.id = _
    rw [client?_setConn, hc, Option.map_some, if_pos (client?_eq_some hc).2]
  have hset' : (served t (ownEvent e) conn r').client? 0 = some { c' with conn } := by
    show (t.setConn 0 conn).client? 0 = _
    rw [client?_setConn, hc', Option.map_some, if_pos (client?_eq_some hc').2]
  have hserved : Alone e.id (served s e conn r) (served t (ownEvent e) conn r') := by
    constructor
    · exact h.clients.served hc hfd r
    · apply h.clients'.served (e := ownEvent e) hc' _ r'
      rw [hfd, Client.fd, Client.fd, hsame]
    · rw [served_requestHandlers rfl, served_requestHandlers hapart.2]
      exact h.handlers
    · rw [served_requestHandlers hapart.2]
      exact h.stateless
    · rw [hset, hset']
      rfl
    · intro c₁ hc₁
      obtain rfl := Option.some.inj (hset.symm.trans hc₁)
      exact hstateless
    -- both logs get the same effects
    · show effectsOf (t.log ++ r'.effects.map fun effect => (0, effect)) 0 =
        effectsOf (s.log ++ r.effects.map fun effect => (e.id, effect)) e.id
      rw [effectsOf_append, effectsOf_append, effectsOf_effects, effectsOf_effects, if_pos rfl,
        if_pos rfl, h.log, halike.2]
    · exact h.born
    · intro fd hfd'
      obtain ⟨c₁, hc₁, hfd₁⟩ := h.fds fd hfd'
      obtain rfl := Option.some.inj (hc.symm.trans hc₁)
      exact ⟨_, hset, hfd.trans hfd₁⟩
  -- the callbacks close nothing, so what is left is the `CloseConn` of `Poll`
  rw [afterServed_eq hapart.1, afterServed_eq rfl, halike.1]
  split
  · exact hserved.closeConn_self e.del
  · exact hserved

/-- A call of `Poll` for one event. -/
private theorem step_poll_one (t : ServerState σ) (e : PollEvent σ) :
    step regexMatch pingPong t (.poll (some [e])) =
      stateAfter (pollOne regexMatch pingPong t e) := by
  unfold step poll
  dsimp only
  rw [List.foldlM_cons]
  cases pollOne regexMatch pingPong t e with
  | ok t' => rfl
  | error exit => cases exit <;> rfl

/-- The connection is accepted on both servers. -/
private theorem withClient_self (h : Alone id s t) (hid : s.nextId = id) {fd : Int} (hpos : 0 ≤ fd)
    (hnew : fd ∉ s.openFds) : fd ∉ t.openFds ∧ Alone id (withClient s fd) (withClient t fd) := by
  obtain ⟨-, hzero⟩ : s.nextId ≤ id ∧ t.nextId = 0 := by
    have := h.born
    omega
  have hnone : s.client? id = none := hid ▸ client?_nextId h.clients
  -- the other server has no descriptor yet
  have hnew' : fd ∉ t.openFds := by
    intro hmem
    obtain ⟨c, hc, -⟩ := h.fds fd hmem
    cases hnone.symm.trans hc
  have hconn : ((withClient s fd).client? id).map Client.conn = some { fd } := by
    rw [client?_withClient h.clients, if_pos hid.symm]
  refine ⟨hnew', h.clients.withClient hpos hnew, h.clients'.withClient hpos hnew', h.handlers,
    h.stateless, ?_, ?_, h.log, ?_, ?_⟩
  · rw [hconn, client?_withClient h.clients', if_pos hzero.symm]
  · intro c hc
    rw [hc, Option.map_some, Option.some.injEq] at hconn
    rw [hconn]
    exact nofun
  · refine .inr ⟨?_, ?_⟩
    · show id < s.nextId + 1
      omega
    · show t.nextId + 1 = 1
      omega
  · intro fd' hfd'
    rcases List.mem_cons.mp hfd' with rfl | hmem
    · obtain ⟨c, hc, hconn'⟩ := Option.map_eq_some_iff.mp hconn
      exact ⟨c, hc, congrArg Connection.fd hconn'⟩
    · obtain ⟨c, hc, -⟩ := h.fds fd' hmem
      cases hnone.symm.trans hc

/-- Another connection is accepted. -/
private theorem withClient_other (h : Alone id s t) (hid : s.nextId ≠ id) {fd : Int}
    (hpos : 0 ≤ fd) (hnew : fd ∉ s.openFds) : Alone id (withClient s fd) t := by
  apply h.congr (h.clients.withClient hpos hnew) rfl
  · have hborn := h.born
    show (s.pendingConns ++ [_]).find? _ = s.pendingConns.find? _
    rw [List.find?_append]
    -- the new client has another number
    have hlast : [({ id := s.nextId, conn := { fd } } : Client σ)].find? (·.id = id) = none := by
      simp [hid]
    rw [hlast, Option.or_none]
  · rfl
  · show s.nextId + 1 ≤ id ↔ _
    omega

/-- An event of a client. -/
private theorem pollClient_self (h : Alone id s t) {s' : ServerState σ} {e : ClientEvent σ}
    (hapart : Apart (.client e)) (hid : e.id = id)
    (hs' : stateAfter (pollOne regexMatch pingPong s (.client e)) = some s') :
    ∃ t', stateAfter (pollOne regexMatch pingPong t (.client (ownEvent e))) = some t' ∧
      Alone id s' t' := by
  unfold Server.pollOne pollClient at hs' ⊢
  dsimp only at hs' ⊢
  rw [hid] at hs'
  cases hc : s.client? id with
  | none =>
    -- the connection was freed
    rw [hc] at hs'
    cases hs'
  | some c =>
    -- the other server has the same connection
    obtain ⟨c', hc', hconn⟩ := Option.map_eq_some_iff.mp
      (h.conn.trans (congrArg (Option.map Client.conn) hc))
    rw [hc] at hs'
    have hown : t.client? (ownEvent e).id = some c' := hc'
    rw [hown]
    dsimp only at hs' ⊢
    cases hin : e.epollin with
    | false =>
      rw [hin] at hs'
      cases hs'
      exact ⟨t, by rw [show (ownEvent e).epollin = false from hin]; rfl, h⟩
    | true =>
      rw [if_pos hin] at hs'
      rw [if_pos (show (ownEvent e).epollin = true from hin)]
      cases hevent : pollEvent regexMatch pingPong s.requestHandlers c.conn e.socket s.user with
      | none => rw [hevent] at hs'; cases hs'
      | some result =>
        rw [hevent] at hs'
        cases result with
        | fault f => cases hs'
        | unfinished => cases hs'
        | served r s₁ =>
          cases hs'
          have hkeeps := h.connStateless c hc
          -- its user context may be another one
          obtain ⟨⟨r', hevent', halike⟩, hafter⟩ :=
            pollEvent_stateless h.stateless hkeeps hevent t.user
          have hsocket : (ownEvent e).socket = e.socket := rfl
          rw [hsocket, h.handlers, hconn, hevent', hafter]
          exact ⟨_, rfl, h.afterServed_self hapart hid hc hc' (connAfter_fd _ _ _)
            (connAfter_stateless h.stateless hkeeps e.socket s.user) halike⟩

/-- One round of the loop. -/
private theorem pollOne (h : Alone id s t) {s' : ServerState σ} {e : PollEvent σ}
    (hapart : Apart e) (hs' : stateAfter (pollOne regexMatch pingPong s e) = some s') :
    ∃ t', (aloneEvent id s e).foldlM (step regexMatch pingPong) t = some t' ∧ Alone id s' t' := by
  by_cases hself : ∃ e', e = .client e' ∧ e'.id = id
  · obtain ⟨e', rfl, hid⟩ := hself
    obtain ⟨t', ht', h'⟩ := h.pollClient_self hapart hid hs'
    refine ⟨t', ?_, h'⟩
    rw [aloneEvent, if_pos hid, Runs.foldlM_cons_eq_some]
    exact ⟨t', by rw [step_poll_one, ht'], rfl⟩
  have hround := pollOne_round regexMatch pingPong s e
  generalize Server.pollOne regexMatch pingPong s e = exit at hround hs'
  -- an event that takes no part in the other run
  have hskip : aloneEvent id s e = [] → Alone id s' t →
      ∃ t', (aloneEvent id s e).foldlM (step regexMatch pingPong) t = some t' ∧
        Alone id s' t' := by
    intro hnil h'
    rw [hnil]
    exact ⟨t, rfl, h'⟩
  have hwithFd : ∀ fd, Alone id (withFd s fd) t := fun fd =>
    h.congr (h.clients.withFd fd) rfl rfl rfl Iff.rfl
  cases hround with
  | impossible => cases hs'
  | @refused answer hfd =>
    cases hs'
    exact hskip (by simp [aloneEvent, hfd]) h
  | @notSet answer fd hfd hnew hset =>
    cases hs'
    exact hskip (by simp [aloneEvent, hset]) (hwithFd fd)
  | @notWatched answer fd hfd hnew hadd =>
    cases hs'
    exact hskip (by simp [aloneEvent, hadd]) (hwithFd fd)
  | @registered answer fd hfd hpos hnew hset hadd =>
    cases hs'
    by_cases hid : s.nextId = id
    · obtain ⟨hnew', h'⟩ := h.withClient_self hid hpos hnew
      refine ⟨_, ?_, h'⟩
      have hown : aloneEvent id s (.server answer) = [.poll (some [.server answer])] := by
        simp [aloneEvent, hid, hfd, hset, hadd]
      -- the descriptor is new to the other server too, which has fewer
      have hposs : AcceptPossible t answer := by
        intro fd' hfd'
        obtain rfl := Option.some.inj (hfd.symm.trans hfd')
        exact ⟨hpos, hnew'⟩
      rw [hown, Runs.foldlM_cons_eq_some]
      refine ⟨_, ?_, rfl⟩
      rw [step_poll_one]
      simp only [Server.pollOne, pollServer, hposs, not_true_eq_false, if_false,
        acceptNewConnection, hfd, hset, hadd, if_true]
      rfl
    · exact hskip (by simp [aloneEvent, hid]) (h.withClient_other hid hpos hnew)
  | dangling hnone => cases hs'
  | @skipped e =>
    cases hs'
    have hid : ¬ e.id = id := fun heq => hself ⟨e, rfl, heq⟩
    exact hskip (by simp [aloneEvent, hid]) h
  | down => cases hs'
  | @served e c hc hin r s₁ hserved =>
    cases hs'
    have hid : ¬ e.id = id := fun heq => hself ⟨e, rfl, heq⟩
    apply hskip
    · simp [aloneEvent, hid]
    · exact h.afterServed_other hapart (Ne.symm hid) hc (connAfter_fd _ _ _) r

/-- The loop of `Poll`. -/
private theorem foldlM_pollOne (h : Alone id s t) {s' : ServerState σ} {events : List (PollEvent σ)}
    (hapart : ∀ e ∈ events, Apart e)
    (hs' : stateAfter (events.foldlM (Server.pollOne regexMatch pingPong) s) = some s') :
    ∃ t', (Runs.project (fun s e => (Server.pollOne regexMatch pingPong s e).toOption)
        (aloneEvent id) s events).foldlM (step regexMatch pingPong) t = some t' ∧
      Alone id s' t' := by
  -- what is collected is a run of the other server
  refine foldlM_pollOne_project (aloneEvent id) (P := fun _ e => Apart e)
    (I := fun s ms => ∃ t', ms.foldlM (step regexMatch pingPong) t = some t' ∧ Alone id s t')
    ?_ [] ⟨t, rfl, h⟩ (Runs.along_of_forall (fun e he _ => hapart e he) _) hs'
  rintro s ms e s' ⟨u, hu, h⟩ hapart hs'
  obtain ⟨t', ht', h'⟩ := h.pollOne hapart hs'
  exact ⟨t', Runs.foldlM_append_eq_some.mpr ⟨u, hu, ht'⟩, h'⟩

/-- One call. -/
private theorem step (h : Alone id s t) {s' : ServerState σ} {call : Call σ}
    (hstateless : ∀ entry ∈ call.registers, entry.2.Stateless)
    (hapart : ∀ e ∈ call.events, Apart e)
    (hstep : Server.step regexMatch pingPong s call = some s') :
    ∃ t', (aloneCall regexMatch pingPong id s call).foldlM (Server.step regexMatch pingPong) t =
      some t' ∧ Alone id s' t' := by
  cases call with
  | registerRequestHandler uri handler =>
    cases hstep
    refine ⟨t.registerRequestHandler uri handler, rfl, ?_⟩
    have hnew : handler.Stateless := hstateless (uri, handler) List.mem_cons_self
    refine ⟨h.clients.registerRequestHandler uri handler,
      h.clients'.registerRequestHandler uri handler, ?_, ?_, h.conn, h.connStateless, h.log, h.born,
      h.fds⟩
    -- the tables were the same, and get the same entry
    · show registerRequestHandler t.requestHandlers uri handler = _
      rw [h.handlers]
      rfl
    · exact h.stateless.registerRequestHandler uri hnew
  | closeConn id' del =>
    cases hstep
    by_cases hid : id' = id
    · subst hid
      refine ⟨_, ?_, h.closeConn_self del⟩
      rw [aloneCall, if_pos rfl]
      rfl
    -- a call for another connection is left out
    · refine ⟨t, ?_, h.closeConn_other (Ne.symm hid) del⟩
      rw [aloneCall, if_neg hid]
      rfl
  | poll events =>
    cases events with
    | none =>
      cases hstep
      exact ⟨t, rfl, h⟩
    | some events => exact h.foldlM_pollOne hapart (stateAfter_of_step hstep)

end Alone

/-- **Connections do not disturb each other.** When the callbacks of a run keep no state, and
    neither close connections nor register handlers, the run without everything that is about
    other connections than `id` is a run too, also with another user context, and at its end
    the connection is in the same state and its events have had the same effects. The pings of
    `ServerPing` are left out. -/
theorem alone (user user' : σ) (calls : List (Call σ)) (id : Nat)
    (hstateless : ∀ call ∈ calls, ∀ entry ∈ call.registers, entry.2.Stateless)
    (hapart : ∀ call ∈ calls, ∀ e ∈ call.events, Apart e) :
    ∀ s, calls.foldlM (step regexMatch pingPong) { user } = some s →
      ∃ t, (aloneCalls regexMatch pingPong id { user } calls).foldlM (step regexMatch pingPong)
          { user := user' } = some t ∧
        (t.client? 0).map Client.conn = (s.client? id).map Client.conn ∧
        effectsOf t.log 0 = effectsOf s.log id := by
  intro s hrun
  -- the calls for the others are left out, and the first id is then 0
  obtain ⟨t, ht, h⟩ := Runs.simulation_project (aloneCall regexMatch pingPong id)
    (P := fun _ call => (∀ entry ∈ call.registers, entry.2.Stateless) ∧
      ∀ e ∈ call.events, Apart e)
    (fun s t call s' h hcall hstep => h.step hcall.1 hcall.2 hstep) (Alone.init id user user')
    (Runs.along_of_forall (fun call hcall _ => ⟨hstateless call hcall, hapart call hcall⟩) _) hrun
  exact ⟨t, ht, h.conn, h.log⟩

/-- A request handler that keeps the connection. -/
private def keepGet : RequestHandler Unit :=
  { httpHandlers := (Vector.replicate _ none).set HttpMethod.GET.toNat
      (some fun _ _ _ _ => { ret := 0, partialBody := [], user := () }) }

/-- Two connections; the request of the second one comes in two parts, before and after that of
    the first. -/
private def interleaved : List (Call Unit) :=
  [.registerRequestHandler (ascii "*") keepGet,
    .poll (some [.server ⟨some 5, true, true⟩, .server ⟨some 6, true, true⟩]),
    .poll (some [.client (arrive 1 (ascii "GET /b HTTP/1.1" ++ crlf)),
      .client (arrive 0 (ascii "GET /a HTTP/1.1" ++ crlf ++ crlf))]),
    .poll (some [.client (arrive 1 crlf)])]
where
  arrive (id : Nat) (unread : Bytes) : ClientEvent Unit :=
    .plain id ⟨unread, [.ready 999, .fail .EAGAIN]⟩

/-- The second connection does not notice the first. -/
theorem alone_interleaved :
    ∃ s t : ServerState Unit,
      interleaved.foldlM (step (fun p t => some (simpleMatch p t)) true) { user := () } = some s ∧
      (aloneCalls (fun p t => some (simpleMatch p t)) true 1 { user := () } interleaved).foldlM
        (step (fun p t => some (simpleMatch p t)) true) { user := () } = some t ∧
      effectsOf s.log 1 = [.handler .GET (ascii "/b") [] true] ∧
      effectsOf t.log 0 = [.handler .GET (ascii "/b") [] true] := by
  obtain ⟨s, hrun, hlog⟩ := Option.map_eq_some_iff.mp (show
    (interleaved.foldlM (step (fun p t => some (simpleMatch p t)) true) { user := () }).map
        (fun s => effectsOf s.log 1) = some [.handler .GET (ascii "/b") [] true] by decide +kernel)
  have hkeep : keepGet.Stateless := by
    refine ⟨?_, nofun, nofun, nofun⟩
    intro handler hmem user user' uri partialBody isFinal
    have huser : user = user' := rfl
    rw [huser]
    exact ⟨rfl, rfl⟩
  obtain ⟨t, ht, -, hsame⟩ := alone () () interleaved 1
    (by simp [interleaved, Call.registers, PollEvent.registers, interleaved.arrive, hkeep])
    (by simp [interleaved, Call.events, Apart, interleaved.arrive]) s hrun
  exact ⟨s, t, hrun, ht, hlog, hsame.trans hlog⟩

end Server

end Httpoll.Native
