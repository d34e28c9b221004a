import Httpoll.Spec.ConnectionLog
import Httpoll.Spec.HookSteps

/-!
# The conversation on a connection

A connection begins with HTTP requests. An upgrade turns it into a WebSocket connection, and
from then on it only gets frames. `Mode` is a machine for the order in which the server may
call the user and write to the peer; what the server logs of a connection is a word that it
accepts. `CloseConn` may fail, and then the conversation goes on where it was. The pings of
`ServerPing` are in no event and not in the log; `Httpoll.Spec.Pings` is about them.

## Key results

- `conversation`: in every run, what happens on a connection is a conversation, and the state
  of the connection is that of the mode that it has come to; once it is freed it has ended
-/

namespace Httpoll.Native.Server

open Connection

variable {σ : Type} {regexMatch : Bytes → Bytes → Option Bool} {pingPong : Bool}
  {table : HandlerTable σ} {c : Connection σ} {s s' : Socket} {user : σ}

/-! ## Modes -/

/-- Where a connection is in its conversation. A WebSocket connection has the key that the
    response 101 was made for, or none if `CloseConn` has failed instead of that response. -/
inductive Mode where
  | http
  /-- The response 404 was written. -/
  | missing
  /-- The connect hook was called. -/
  | connected
  /-- The response 101 was written. -/
  | switched (wsKey : Bytes)
  | websocket (wsKey : Option Bytes)
  /-- The header of a pong was written. -/
  | pong (wsKey : Option Bytes) (header : Bytes)
  /-- The close hook was called. -/
  | leaving (wsKey : Option Bytes)
  deriving Repr, DecidableEq

namespace Mode

/-- The opcodes of the messages that the user gets. -/
def IsMessage (pingPong : Bool) (opcode : Fin 16) : Prop :=
  opcode ≠ WsFrameType.kTypeClose.toOpcode ∧
    (pingPong = true → opcode ≠ WsFrameType.kTypePing.toOpcode ∧
      opcode ≠ WsFrameType.kTypePong.toOpcode)

instance (pingPong : Bool) : DecidablePred (IsMessage pingPong) := fun opcode =>
  inferInstanceAs (Decidable (opcode ≠ _ ∧ (pingPong = true → opcode ≠ _ ∧ opcode ≠ _)))

/-- What may happen on a WebSocket connection. -/
def nextFrame (pingPong : Bool) (wsKey : Option Bytes) : Effect → Option Mode
  | .onData opcode _ => if IsMessage pingPong opcode then some (.websocket wsKey) else none
  | .write header => if pingPong then some (.pong wsKey header) else none
  | .wsWillCloseHook _ => some (.leaving wsKey)
  | .close => some (.websocket wsKey)
  | _ => none

/-- What may happen next. -/
def next (pingPong : Bool) : Mode → Effect → Option Mode
  | .http, .handler .. => some .http
  | .http, .respond code _ => if code = 404 then some .missing else none
  | .http, .wsConnectHook _ => some .connected
  | .http, .switchProtocols _ wsKey => some (.switched wsKey)
  | .http, .close => some .http
  | .missing, .close => some .http
  | .connected, .switchProtocols _ wsKey => some (.switched wsKey)
  | .connected, .close => some (.websocket none)
  | .switched wsKey, .wsReadyHook _ => some (.websocket (some wsKey))
  | .switched wsKey, effect => nextFrame pingPong (some wsKey) effect
  | .websocket wsKey, effect => nextFrame pingPong wsKey effect
  | .pong wsKey header, .write payload =>
    if header = makeWebsocketHeader payload.length .kTypePong then some (.websocket wsKey)
    else none
  | .leaving wsKey, .close => some (.websocket wsKey)
  | _, _ => none

end Mode

/-! ## The connection in a mode -/

/-- The connection was upgraded to `ws`: it has asked for the upgrade, and `ws_key_`, which is
    a view of a header, is still the key that the request came with. -/
structure Upgraded (c : Connection σ) (ws : WebsocketConnection σ) : Prop where
  wsConn : c.wsConn = some ws
  asked : ({ c with wsConn := none } : Connection σ).shouldUpgradeWebsocket = true
  key : (wsKeyNames.map c.parser.getHeader).find? (· != []) = some ws.wsKey

/-- The connection waits for its next event in this mode; `none` when it was freed. -/
inductive Waits : Mode → Option (Connection σ) → Prop where
  | http {c : Connection σ} (hplain : c.wsConn = none) : Waits .http (some c)
  | switched {c : Connection σ} {ws : WebsocketConnection σ} (hup : Upgraded c ws) :
    Waits (.switched ws.wsKey) (some c)
  | websocket {c : Connection σ} {ws : WebsocketConnection σ} (hup : Upgraded c ws)
    {wsKey : Option Bytes} (hkey : ∀ key ∈ wsKey, key = ws.wsKey) :
    Waits (.websocket wsKey) (some c)
  | freed {mode : Mode} : Waits mode none

/-- The effects are a conversation, and the connection is what it should be at its end. -/
def Conversation (pingPong : Bool) (c : Option (Connection σ)) (effects : List Effect) : Prop :=
  ∃ mode, effects.foldlM (Mode.next pingPong) Mode.http = some mode ∧ Waits mode c

/-- The machine goes on from `mode` with `effects` to a mode in which the connection waits. -/
def Continues (pingPong : Bool) (mode : Mode) (effects : List Effect) (c : Connection σ) :
    Prop :=
  ∃ mode', effects.foldlM (Mode.next pingPong) mode = some mode' ∧ Waits mode' (some c)

/-! ## Events of a WebSocket connection -/

/-- What a `Read` of a frame calls and writes. -/
inductive FrameEffects (pingPong : Bool) : List Effect → Prop where
  | silent : FrameEffects pingPong []
  | message {opcode : Fin 16} (hopcode : Mode.IsMessage pingPong opcode) (payload : Bytes) :
    FrameEffects pingPong [.onData opcode payload]
  | pong (hpingPong : pingPong = true) (payload : Bytes) :
    FrameEffects pingPong
      [.write (makeWebsocketHeader payload.length .kTypePong), .write payload]

private theorem handleFrame_effects (ws : WebsocketConnection σ) (hfd : c.fd ≠ -1) (user : σ)
    (frame : WebsocketConnection.RawFrame) :
    FrameEffects pingPong
      (((ws.handleFrame pingPong c user frame).call.map fun call =>
        Effect.onData call.1 call.2).toList ++
          (ws.handleFrame pingPong c user frame).writes.map .write) := by
  unfold WebsocketConnection.handleFrame
  dsimp only
  split
  · exact .silent
  rename_i hclose
  split
  · rename_i hping
    simp only [WebsocketConnection.write, if_neg hfd]
    exact .pong hping.1 frame.payload
  rename_i hping
  split
  · exact .silent
  rename_i hpong
  split
  · split
    · -- a message: the frames of the protocol were sorted out before
      refine .message ⟨hclose, ?_⟩ _
      intro hpp
      exact ⟨fun h => hping ⟨hpp, h⟩, fun h => hpong ⟨hpp, h⟩⟩
    · exact .silent
  · exact .silent

private theorem read_effects {ws : WebsocketConnection σ} (hfd : c.fd ≠ -1) {result : ReadResult}
    {o : WebsocketConnection.ReadOutcome σ} (h : ws.read pingPong c result user = .ok o) :
    FrameEffects pingPong
      ((o.call.map fun call => Effect.onData call.1 call.2).toList ++ o.writes.map .write) := by
  obtain ⟨buffer, hread⟩ := read_conn c result
  unfold WebsocketConnection.read at h
  dsimp only at h
  rw [hread] at h
  split at h
  · -- nothing was read
    cases h
    exact .silent
  · cases hframe : WebsocketConnection.readFrame buffer with
    | error f => rw [hframe] at h; cases h
    | ok frame =>
      rw [hframe] at h
      cases h
      exact handleFrame_effects (c := { c with buffer := [] }) ws hfd user frame

/-- The machine does not mind a frame. -/
private theorem foldlM_frame {effects : List Effect} (h : FrameEffects pingPong effects)
    (wsKey : Option Bytes) :
    effects.foldlM (Mode.next pingPong) (.websocket wsKey) = some (.websocket wsKey) := by
  cases h with
  | silent => rfl
  | message hopcode payload =>
    simp only [List.foldlM_cons, List.foldlM_nil, Mode.next, Mode.nextFrame, if_pos hopcode]
    rfl
  | pong hpingPong payload =>
    simp only [List.foldlM_cons, List.foldlM_nil, Mode.next, Mode.nextFrame, if_pos hpingPong,
      Option.bind_eq_bind, Option.bind_some, if_true]
    rfl

/-- After the response 101 the machine takes the effects of a WebSocket connection. -/
private theorem foldlM_switched {effect : Effect} (hready : ∀ uri, effect ≠ .wsReadyHook uri)
    (effects : List Effect) (wsKey : Bytes) :
    (effect :: effects).foldlM (Mode.next pingPong) (.switched wsKey) =
      (effect :: effects).foldlM (Mode.next pingPong) (.websocket (some wsKey)) := by
  rw [List.foldlM_cons, List.foldlM_cons]
  congr 1
  cases effect with
  | wsReadyHook uri => exact absurd rfl (hready uri)
  | _ => rfl

/-- A frame leaves the connection upgraded, with the same key. -/
private theorem Upgraded.read {ws : WebsocketConnection σ} (h : Upgraded c ws)
    (buffer lastPayload : Bytes) :
    Upgraded { c with buffer, wsConn := some { ws with lastPayload } } { ws with lastPayload } :=
  ⟨rfl, h.asked, h.key⟩

/-- Effects that leave a WebSocket connection what it is. -/
private theorem Waits.continues {mode : Mode} {ws ws' : WebsocketConnection σ}
    (h : Waits mode (some c)) (hup : Upgraded c ws) {c' : Connection σ} (hup' : Upgraded c' ws')
    (hkey : ws'.wsKey = ws.wsKey) {effects : List Effect}
    (hready : ∀ effect ∈ effects, ∀ uri, effect ≠ .wsReadyHook uri)
    (hkeep : ∀ wsKey,
      effects.foldlM (Mode.next pingPong) (.websocket wsKey) = some (.websocket wsKey)) :
    Continues pingPong mode effects c' := by
  -- without effects the mode stays; with some, `switched` gives way to `websocket`
  cases h with
  | http hplain => cases hplain.symm.trans hup.wsConn
  | @switched _ ws₁ hup₁ =>
    obtain rfl := Option.some.inj (hup₁.wsConn.symm.trans hup.wsConn)
    cases effects with
    | nil =>
      refine ⟨.switched ws₁.wsKey, rfl, ?_⟩
      rw [← hkey]
      exact .switched hup'
    | cons effect effects =>
      refine ⟨.websocket (some ws₁.wsKey), ?_, ?_⟩
      · rw [foldlM_switched (hready effect List.mem_cons_self)]
        exact hkeep _
      · apply Waits.websocket hup'
        intro key hkey'
        rw [hkey, Option.mem_some_iff.mp hkey']
  | @websocket _ ws₁ hup₁ wsKey hsame =>
    obtain rfl := Option.some.inj (hup₁.wsConn.symm.trans hup.wsConn)
    refine ⟨.websocket wsKey, hkeep wsKey, ?_⟩
    apply Waits.websocket hup'
    intro key hkey'
    rw [hkey, hsame key hkey']

private theorem foldlM_close (hook : Option (WsHook σ)) (user : σ) (wsKey : Option Bytes) :
    ((callHook hook [] (.wsWillCloseHook []) 0 user).2.2 ++ [Effect.close]).foldlM
      (Mode.next pingPong) (.websocket wsKey) = some (.websocket wsKey) := by
  cases hook <;> rfl

private theorem FrameEffects.ne_ready {effects : List Effect} (h : FrameEffects pingPong effects) :
    ∀ effect ∈ effects, ∀ uri, effect ≠ .wsReadyHook uri := by
  intro effect heffect uri heq
  subst heq
  cases h <;> simp at heffect

/-- An event of a WebSocket connection. -/
private theorem websocket_continues {mode : Mode} (h : Waits mode (some c)) (hfd : c.fd ≠ -1)
    {ws : WebsocketConnection σ} (hws : c.wsConn = some ws) {result : ReadResult}
    {o : WebsocketConnection.ReadOutcome σ} (hread : ws.read pingPong c result user = .ok o) :
    Continues pingPong mode (afterRead ws o).effects o.conn := by
  -- what the mode knows of the connection is about the same `ws`
  have hup : Upgraded c ws := by
    cases h with
    | http hplain => cases hplain.symm.trans hws
    | switched hup | websocket hup =>
      obtain rfl := Option.some.inj (hup.wsConn.symm.trans hws)
      exact hup
  obtain ⟨buffer, lastPayload, hconn⟩ := websocketRead_conn hws hread
  have hframe := read_effects hfd hread
  rw [hconn]
  apply h.continues hup (hup.read buffer lastPayload) rfl
  · unfold afterRead
    dsimp only
    split
    · intro effect heffect
      rcases List.mem_append.mp heffect with heffect | heffect
      · rcases List.mem_append.mp heffect with heffect | heffect
        · exact hframe.ne_ready effect heffect
        · intro uri heq
          subst heq
          cases hhook : ws.willCloseHook <;> simp [hhook, callHook] at heffect
      · intro uri heq
        subst heq
        simp at heffect
    · exact hframe.ne_ready
  · intro wsKey
    unfold afterRead
    dsimp only
    split
    · dsimp only
      -- the frame first, then the close hook and `CloseConn`
      rw [List.append_assoc, List.foldlM_append, foldlM_frame hframe]
      exact foldlM_close ws.willCloseHook o.user wsKey
    · exact foldlM_frame hframe wsKey

/-! ## Events of a connection that was not upgraded -/

/-- A hook is called, or there is none and `n` stays. -/
private theorem callHook_cases (hook : Option (WsHook σ)) (uri : Bytes) (effect : Effect) (n : Int)
    (user : σ) :
    (callHook hook uri effect n user).2.2 = [effect] ∨
      (callHook hook uri effect n user).2.2 = [] ∧ (callHook hook uri effect n user).1 = n := by
  cases hook with
  | none => exact .inr ⟨rfl, rfl⟩
  | some hook => exact .inl rfl

/-- The dispatch of a request that asks for the upgrade. -/
private theorem upgrade_continues {handlers : RequestHandler σ} {ws : WebsocketConnection σ}
    (hup : Upgraded c ws) (hfd : c.fd ≠ -1) :
    Continues pingPong .http (upgrade handlers ws c user).effects c := by
  -- where the upgrade can end: before the response 101 or behind it
  have hnone : Waits (.websocket none) (some c) :=
    .websocket hup fun key hkey => absurd hkey (Option.not_mem_none key)
  have hsome : Waits (.websocket (some ws.wsKey)) (some c) :=
    .websocket hup fun key hkey => (Option.mem_some_iff.mp hkey).symm
  have hconnect := callHook_cases handlers.wsConnectHook c.parser.uri
    (.wsConnectHook c.parser.uri) 0 user
  unfold upgrade
  dsimp only
  rw [show connWrite c (.switchProtocols c.parser.version ws.wsKey) =
    [.switchProtocols c.parser.version ws.wsKey] from if_neg hfd]
  generalize callHook handlers.wsConnectHook c.parser.uri (.wsConnectHook c.parser.uri) 0 user =
    answer at hconnect ⊢
  obtain ⟨n, user', connect⟩ := answer
  dsimp only at hconnect ⊢
  by_cases hn : n = -1
  · -- the connect hook refuses
    rw [if_pos hn]
    rcases hconnect with rfl | ⟨-, hzero⟩
    · exact ⟨_, rfl, hnone⟩
    · omega
  rw [if_neg hn]
  -- the machine comes to the response 101 with or without a call of the connect hook
  have hswitched : (connect ++ [Effect.switchProtocols c.parser.version ws.wsKey]).foldlM
      (Mode.next pingPong) Mode.http = some (.switched ws.wsKey) := by
    rcases hconnect with rfl | ⟨rfl, -⟩ <;> rfl
  have hready := callHook_cases handlers.wsReadyHook c.parser.uri (.wsReadyHook c.parser.uri) n
    user'
  generalize callHook handlers.wsReadyHook c.parser.uri (.wsReadyHook c.parser.uri) n user' =
    answer at hready ⊢
  obtain ⟨n', user'', ready⟩ := answer
  dsimp only at hready ⊢
  by_cases hn' : n' = -1
  · -- the ready hook refuses
    rw [if_pos hn']
    rcases hready with rfl | ⟨-, hsame⟩
    · refine ⟨.websocket (some ws.wsKey), ?_, hsome⟩
      dsimp only
      rw [List.append_assoc, Runs.foldlM_append_of_some hswitched]
      rfl
    · omega
  · rw [if_neg hn']
    dsimp only
    -- with a ready hook the upgrade is complete; without one the mode stays at the response
    rcases hready with rfl | ⟨rfl, -⟩
    · refine ⟨.websocket (some ws.wsKey), ?_, hsome⟩
      rw [Runs.foldlM_append_of_some hswitched]
      rfl
    · refine ⟨.switched ws.wsKey, ?_, .switched hup⟩
      rw [List.append_nil]
      exact hswitched

/-- What the upgrade makes of a connection that asks for it. -/
private theorem upgradeToWebsocket_upgraded {onMsg : Option (WsHandler σ)}
    {hook : Option (WsHook σ)} (hplain : c.wsConn = none)
    (hasked : c.shouldUpgradeWebsocket = true) {ws : WebsocketConnection σ} {c' : Connection σ}
    (h : c.upgradeToWebsocket onMsg hook = (some ws, c')) : Upgraded c' ws := by
  obtain rfl := upgradeToWebsocket_eq h
  -- the connection that asked had no `ws_conn_` yet
  have hsame : ({ c with wsConn := none } : Connection σ) = c := by rw [← hplain]
  refine ⟨rfl, ?_, ?_⟩
  · show ({ c with wsConn := none } : Connection σ).shouldUpgradeWebsocket = true
    rw [hsame]
    exact hasked
  · obtain ⟨key, hkey, hnew⟩ := upgradeToWebsocket_new hplain h
    rw [hnew]
    exact hkey

/-- The dispatch of a request. -/
private theorem dispatch_continues {ret : Int} (hplain : c.wsConn = none) (hfd : c.fd ≠ -1)
    {r : Served σ} (h : dispatch regexMatch table ret c user = .ok r) :
    Continues pingPong .http r.effects (connAfterDispatch regexMatch table ret c user) := by
  unfold connAfterDispatch
  cases dispatch_answered h with
  -- a response 404 or a handler is the end of it for this event
  | notFound hfind =>
    simp only [hfind, connWrite, if_neg hfd]
    exact ⟨.http, rfl, .http hplain⟩
  | upgraded hfind hshould hws =>
    simp only [hfind, hshould, if_true, hws]
    -- the upgrade has found the key that the machine asks for
    apply upgrade_continues (upgradeToWebsocket_upgraded hplain hshould hws)
    rw [upgradeToWebsocket_eq hws]
    exact hfd
  | @called _ hfind hshould handler hat =>
    simp only [hfind, hshould, Bool.false_eq_true, if_false, hat]
    cases handler with
    | none => exact ⟨.http, rfl, .http hplain⟩
    | some handler =>
      unfold callHandler
      dsimp only
      split
      · exact ⟨.http, rfl, .http hplain⟩
      · exact ⟨.http, rfl, .http hplain⟩

/-- **One event.** -/
theorem Waits.event {mode : Mode} (h : Waits mode (some c)) (hfd : c.fd ≠ -1) {r : Served σ}
    (hserved : pollEvent regexMatch pingPong table c s user = some (.served r s')) :
    Continues pingPong mode r.effects (connAfter regexMatch pingPong table c s user) := by
  -- the mode tells whether the connection was upgraded
  have hmode : c.wsConn = none → mode = .http := by
    intro hplain
    cases h with
    | http => rfl
    | switched hup | websocket hup => cases hplain.symm.trans hup.wsConn
  unfold connAfter
  cases pollEvent_served hserved with
  | websocket hws hanswers hread =>
    simp only [hws, hanswers, hread]
    exact websocket_continues h hfd hws hread
  | failed hplain hcall =>
    obtain rfl := hmode hplain
    simp only [hplain, hcall]
    rw [if_neg (by omega)]
    exact ⟨.http, rfl, .http ((processDataIn_wsConn hcall).trans hplain)⟩
  | dispatched hdisp hr =>
    obtain rfl := hmode hdisp.plain
    obtain ⟨log, hcall⟩ := hdisp.call
    simp only [hdisp.plain, hcall, if_pos hdisp.ret_eq.symm]
    apply dispatch_continues ((processDataIn_wsConn hcall).trans hdisp.plain) _ hr
    rw [processDataIn_fd hcall]
    exact hfd
  | incomplete hplain hret hcall =>
    obtain rfl := hmode hplain
    simp only [hplain, hcall, if_neg (not_or.mpr hret.symm)]
    exact ⟨.http, rfl, .http ((processDataIn_wsConn hcall).trans hplain)⟩

/-! ## Runs -/

/-- A conversation is an account of a connection. -/
private theorem account_conversation :
    Account regexMatch pingPong (fun _ => True) (fun _ => True)
      (Conversation (σ := σ) pingPong) := by
  apply Account.of_connAfter
  · exact ⟨.http, rfl, .freed⟩
  · exact fun fd _ => ⟨.http, rfl, .http rfl⟩
  · intro table c s s' user effects r _ hfd ⟨mode, hmode, hwaits⟩ hserved
    obtain ⟨mode', hmode', hwaits'⟩ := hwaits.event (by omega) hserved
    refine ⟨mode', ?_, hwaits'⟩
    rw [Runs.foldlM_append_of_some hmode]
    exact hmode'
  · exact fun c effects ⟨mode, hmode, _⟩ => ⟨mode, hmode, .freed⟩

/-- **The conversation on a connection.** In every state that a run of the server reaches, what
    the events of a connection have done is a conversation, and the connection is what it should
    be at that point. Once the connection was freed, no event does anything more on it in the
    rest of the run. The pings that `ServerPing` writes are left out. -/
theorem conversation (user : σ) (calls more : List (Call σ)) (id : Nat) :
    ∀ s, calls.foldlM (step regexMatch pingPong) { user } = some s →
      Conversation pingPong ((s.client? id).map Client.conn) (effectsOf s.log id) ∧
        (id < s.nextId → s.client? id = none →
          ∀ s', more.foldlM (step regexMatch pingPong) s = some s' →
            effectsOf s'.log id = effectsOf s.log id) := by
  intro s hrun
  have hA : Account regexMatch pingPong (fun _ => True) (fun _ => True)
      (Conversation (σ := σ) pingPong) := account_conversation
  have haccounted := hA.run (hA.init id user) (fun _ _ => trivial) (fun _ _ _ _ => trivial)
    (fun _ _ _ _ _ => trivial) hrun
  refine ⟨haccounted.account, ?_⟩
  intro hborn hgone s' hmore
  exact (effectsOf_freed ⟨haccounted.clients, hborn, hgone, rfl⟩ hmore).logged

/-- A connection is upgraded, sends a text and a ping, and closes; `CloseConn` succeeds. -/
private def talk : List (Call Unit) :=
  .registerRequestHandler (ascii "*")
      { wsConnectHook := some fun _ _ => (0, ())
        wsReadyHook := some fun _ _ => (0, ())
        wsMessageHandler := some fun _ _ _ => (0, ()) } ::
    .poll (some [.server ⟨some 5, true, true⟩]) ::
      [ascii "GET / HTTP/1.1" ++ crlf ++ ascii "Upgrade: websocket" ++ crlf ++
          ascii "Connection: Upgrade" ++ crlf ++ ascii "Sec-WebSocket-Key: abc" ++ crlf ++ crlf,
        [0x81, 2, 104, 105], [0x89, 1, 33], [0x88, 0]].map fun unread =>
          .poll (some [.client (.plain 0 ⟨unread, [.ready 999]⟩)])

/-- Each of these effects has its place in the conversation. -/
theorem conversation_talk :
    ∃ s : ServerState Unit,
      talk.foldlM (step (fun p t => some (simpleMatch p t)) true) { user := () } = some s ∧
      effectsOf s.log 0 =
        [.wsConnectHook (ascii "/"), .switchProtocols .HTTP_1_1 (ascii "abc"),
          .wsReadyHook (ascii "/"), .onData 1 (ascii "hi"),
          .write (makeWebsocketHeader 1 .kTypePong), .write (ascii "!"), .close] ∧
      Conversation true ((s.client? 0).map Client.conn) (effectsOf s.log 0) := by
  obtain ⟨s, hrun, hlog⟩ := Option.map_eq_some_iff.mp (show
    (talk.foldlM (step (fun p t => some (simpleMatch p t)) true) { user := () }).map
        (fun s => effectsOf s.log 0) =
      some [.wsConnectHook (ascii "/"), .switchProtocols .HTTP_1_1 (ascii "abc"),
        .wsReadyHook (ascii "/"), .onData 1 (ascii "hi"),
        .write (makeWebsocketHeader 1 .kTypePong), .write (ascii "!"), .close] by decide +kernel)
  exact ⟨s, hrun, hlog, (conversation () talk [] 0 s hrun).1⟩

end Httpoll.Native.Server
