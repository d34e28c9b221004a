import Httpoll.Spec.Handlers
import Httpoll.Spec.KeepAlive

/-!
# The hooks of an event

Which of the steps in the life of a WebSocket connection one event makes: the call of the
connect hook, the response that accepts the upgrade, the call of the close hook, `CloseConn`.

## Key results

- `pollEvent_plain_steps`: an event of a connection that was not upgraded
- `pollEvent_websocket_steps`: an event of one that was
-/

namespace Httpoll.Native.Server

open Connection

variable {σ : Type} {regexMatch : Bytes → Bytes → Option Bool} {pingPong : Bool}
  {table : HandlerTable σ} {c : Connection σ} {s s' : Socket} {user : σ}

/-! ## Steps -/

/-- The steps in the life of a WebSocket connection, among the effects. -/
def isStep : Effect → Bool
  | .wsConnectHook _ | .switchProtocols .. | .wsWillCloseHook _ | .close => true
  | _ => false

/-- What the ready hook returns for a connection that the connect hook accepts. -/
def readyAnswerOf (handlers : RequestHandler σ) (uri : Bytes) (user : σ) : Option Int :=
  let (n, user, _) := callHook handlers.wsConnectHook uri (.wsConnectHook uri) 0 user
  if n = -1 then none else handlers.wsReadyHook.map fun hook => (hook user uri).1

/-- The handlers with which an event upgrades the connection, if it does, and the URI. -/
def upgradeOf (regexMatch : (pattern text : Bytes) → Option Bool) (table : HandlerTable σ)
    (c : Connection σ) (s : Socket) : Option (RequestHandler σ × Bytes) :=
  match c.wsConn, c.processDataIn s with
  | none, some (.returned ret c _ _) =>
    if ret = 1 ∨ ret = 0 then
      match findRequestHandler regexMatch table c.parser.uri with
      | .ok (some handlers) =>
        if c.shouldUpgradeWebsocket then some (handlers, c.parser.uri) else none
      | _ => none
    else none
  | _, _ => none

/-- An event upgrades a connection with handlers of the table. -/
theorem upgradeOf_all {Q : RequestHandler σ → Prop} (h : table.All Q) :
    ∀ up ∈ upgradeOf regexMatch table c s, Q up.1 := by
  intro up hup
  unfold upgradeOf at hup
  split at hup
  · split at hup
    · split at hup
      · rename_i handlers hfind
        split at hup
        · obtain ⟨pattern, hmem⟩ := findEntry_mem hfind
          cases hup
          exact h _ hmem
        · cases hup
      · cases hup
    · cases hup
  · cases hup

/-- A close hook is registered. -/
def HasCloseHook (handlers : RequestHandler σ) : Prop := handlers.wsWillCloseHook.isSome = true

instance : DecidablePred (HasCloseHook (σ := σ)) := fun handlers =>
  inferInstanceAs (Decidable (handlers.wsWillCloseHook.isSome = true))

/-- The call of a connect hook, or none when there is no such hook. -/
def IsConnect (effects : List Effect) : Prop :=
  effects = [] ∨ ∃ uri, effects = [.wsConnectHook uri]

/-- The steps that an event of a connection makes which was not upgraded. -/
inductive PlainSteps (closed : Bool) (after : Connection σ) : List Effect → Prop where
  | kept (hclosed : closed = false) (hplain : after.wsConn = none) : PlainSteps closed after []
  | dropped (hclosed : closed = true) (hplain : after.wsConn = none) :
    PlainSteps closed after [.close]
  | refused (hclosed : closed = true) (hws : after.wsConn.isSome = true) (uri : Bytes) :
    PlainSteps closed after [.wsConnectHook uri, .close]
  | accepted (hclosed : closed = false) {connect : List Effect} (hconnect : IsConnect connect)
    (version : HttpVersion) (wsKey : Bytes) {ws : WebsocketConnection σ}
    (hws : after.wsConn = some ws) (hhook : ws.willCloseHook.isSome = true) :
    PlainSteps closed after (connect ++ [.switchProtocols version wsKey])

/-- The call of the connect hook; without a hook the connection is accepted. -/
private theorem callHook_connect (hook : Option (WsHook σ)) (uri : Bytes) (user : σ) :
    IsConnect (callHook hook uri (.wsConnectHook uri) 0 user).2.2 ∧
      ((callHook hook uri (.wsConnectHook uri) 0 user).1 = -1 →
        (callHook hook uri (.wsConnectHook uri) 0 user).2.2 = [.wsConnectHook uri]) := by
  cases hook with
  | none => exact ⟨.inl rfl, fun h => absurd (show (0 : Int) = -1 from h) (by decide)⟩
  | some hook => exact ⟨.inr ⟨uri, rfl⟩, fun _ => rfl⟩

/-- The call of a ready hook that does not refuse. -/
private theorem callHook_ready {hook : Option (WsHook σ)} {uri : Bytes} {n : Int} (hn : n ≠ -1)
    (hready : hook.map (fun hook => (hook user uri).1) ≠ some (-1)) :
    (callHook hook uri (.wsReadyHook uri) n user).1 ≠ -1 ∧
      (callHook hook uri (.wsReadyHook uri) n user).2.2.filter isStep = [] := by
  cases hook with
  | none => exact ⟨hn, rfl⟩
  | some hook =>
    refine ⟨?_, rfl⟩
    intro h
    exact hready (congrArg some h)

/-- The hooks of the upgrade. -/
private theorem upgrade_steps {handlers : RequestHandler σ} (ws : WebsocketConnection σ)
    (hfd : c.fd ≠ -1) (hready : readyAnswerOf handlers c.parser.uri user ≠ some (-1)) :
    ((upgrade handlers ws c user).conn = none ∧ ∃ uri,
        (upgrade handlers ws c user).effects.filter isStep = [.wsConnectHook uri, .close]) ∨
      ((upgrade handlers ws c user).conn = some c ∧ ∃ connect version wsKey, IsConnect connect ∧
        (upgrade handlers ws c user).effects.filter isStep =
          connect ++ [.switchProtocols version wsKey]) := by
  have hwrite : connWrite c (.switchProtocols c.parser.version ws.wsKey) =
      [.switchProtocols c.parser.version ws.wsKey] := if_neg hfd
  obtain ⟨hconnect, hrefused⟩ := callHook_connect handlers.wsConnectHook c.parser.uri user
  unfold readyAnswerOf at hready
  unfold upgrade
  dsimp only at hready ⊢
  rw [hwrite]
  generalize callHook handlers.wsConnectHook c.parser.uri (.wsConnectHook c.parser.uri) 0 user =
    answer at hready hconnect hrefused ⊢
  obtain ⟨n, user, connect⟩ := answer
  dsimp only at hready hconnect hrefused ⊢
  have hsteps : connect.filter isStep = connect := by
    rcases hconnect with rfl | ⟨uri, rfl⟩ <;> rfl
  by_cases hn : n = -1
  · -- the connect hook refuses
    left
    rw [if_pos hn, hrefused hn]
    exact ⟨rfl, c.parser.uri, rfl⟩
  · right
    rw [if_neg hn] at hready ⊢
    -- the ready hook does not, and it is no step
    obtain ⟨hkept, hnone⟩ := callHook_ready hn hready
    rw [if_neg hkept]
    refine ⟨rfl, connect, c.parser.version, ws.wsKey, hconnect, ?_⟩
    dsimp only
    rw [List.filter_append, List.filter_append, hsteps, hnone, List.append_nil]
    rfl

theorem upgradeToWebsocket_sameParser (c : Connection σ) (onMsg : Option (WsHandler σ))
    (hook : Option (WsHook σ)) : (c.upgradeToWebsocket onMsg hook).2.parser = c.parser := by
  unfold upgradeToWebsocket
  split
  · rfl
  · split <;> rfl

/-- A connection that asks for an upgrade. -/
private theorem upgradeToWebsocket_steps {handlers : RequestHandler σ} (hplain : c.wsConn = none)
    (hfd : c.fd ≠ -1) (hhook : HasCloseHook handlers)
    (hready : readyAnswerOf handlers c.parser.uri user ≠ some (-1))
    {ws : WebsocketConnection σ} {c' : Connection σ}
    (hws : c.upgradeToWebsocket handlers.wsMessageHandler handlers.wsWillCloseHook =
      (some ws, c')) :
    PlainSteps (upgrade handlers ws c' user).conn.isNone c'
      ((upgrade handlers ws c' user).effects.filter isStep) := by
  have hparser := upgradeToWebsocket_sameParser c handlers.wsMessageHandler
    handlers.wsWillCloseHook
  have hfd' := upgradeToWebsocket_fd c handlers.wsMessageHandler handlers.wsWillCloseHook
  rw [hws] at hparser hfd'
  have hwsConn := upgradeToWebsocket_wsConn hws
  -- the ready hook is asked with the parser of the upgraded connection, which is the same
  rw [← hparser] at hready
  rw [← hfd'] at hfd
  rcases upgrade_steps ws hfd hready with ⟨hconn, uri, hsteps⟩ |
    ⟨hconn, connect, version, wsKey, hconnect, hsteps⟩
  · rw [hconn, hsteps]
    exact .refused rfl (by rw [hwsConn]; rfl) uri
  · rw [hconn, hsteps]
    refine .accepted rfl hconnect version wsKey hwsConn ?_
    -- the upgrade keeps the close hook
    obtain ⟨key, -, hnew⟩ := upgradeToWebsocket_new hplain hws
    rw [hnew]
    exact hhook

/-- A request whose URI no handler is registered for: the response is no step. -/
private theorem respond_steps (c : Connection σ) :
    (connWrite c (.respond 404 c.parser.version) ++ [Effect.close]).filter isStep = [.close] := by
  unfold connWrite
  split <;> rfl

/-- The dispatch of a request. -/
private theorem dispatch_steps {ret : Int} (hplain : c.wsConn = none) (hfd : c.fd ≠ -1)
    (hup : ∀ handlers, findRequestHandler regexMatch table c.parser.uri = .ok (some handlers) →
      c.shouldUpgradeWebsocket = true →
      HasCloseHook handlers ∧ readyAnswerOf handlers c.parser.uri user ≠ some (-1))
    {r : Served σ} (h : dispatch regexMatch table ret c user = .ok r) :
    PlainSteps r.conn.isNone (connAfterDispatch regexMatch table ret c user)
      (r.effects.filter isStep) := by
  unfold connAfterDispatch
  cases dispatch_answered h with
  | notFound hfind =>
    simp only [hfind, respond_steps]
    exact .dropped rfl hplain
  | upgraded hfind hshould hws =>
    obtain ⟨hhook, hready⟩ := hup _ hfind hshould
    simp only [hfind, hshould, if_true, hws]
    exact upgradeToWebsocket_steps hplain hfd hhook hready hws
  | @called _ hfind hshould handler hat =>
    -- a request of another kind goes to the handler of its method
    simp only [hfind, hshould, Bool.false_eq_true, if_false, hat]
    cases handler with
    | none => exact .dropped rfl hplain
    | some handler =>
      unfold callHandler
      dsimp only
      split
      · exact .dropped rfl hplain
      · exact .kept rfl hplain

/-- An event of a connection that was not upgraded. -/
theorem pollEvent_plain_steps (hplain : c.wsConn = none) (hfd : c.fd ≠ -1)
    (hup : ∀ up ∈ upgradeOf regexMatch table c s,
      HasCloseHook up.1 ∧ readyAnswerOf up.1 up.2 user ≠ some (-1)) {r : Served σ}
    (h : pollEvent regexMatch pingPong table c s user = some (.served r s')) :
    PlainSteps r.conn.isNone (connAfter regexMatch pingPong table c s user)
      (r.effects.filter isStep) := by
  unfold connAfter
  unfold upgradeOf at hup
  simp only [hplain] at hup ⊢
  cases pollEvent_served h with
  | websocket hws => cases hplain.symm.trans hws
  -- only a request that is dispatched can come to a hook
  | failed _ hcall =>
    simp only [hcall]
    rw [if_neg (by omega)]
    exact .dropped rfl ((processDataIn_wsConn hcall).trans hplain)
  | @dispatched ret c₁ _ hdisp _ hr =>
    obtain ⟨log, hcall⟩ := hdisp.call
    have hfd₁ : c₁.fd ≠ -1 := by
      rw [processDataIn_fd hcall]
      exact hfd
    simp only [hcall, if_pos hdisp.ret_eq.symm] at hup ⊢
    refine dispatch_steps ((processDataIn_wsConn hcall).trans hplain) hfd₁ ?_ hr
    -- an upgrade of this dispatch is the upgrade of the event
    intro handlers hfind hshould
    apply hup (handlers, c₁.parser.uri)
    simp only [hfind, hshould, if_true]
    rfl
  | incomplete _ hret hcall =>
    simp only [hcall, if_neg (not_or.mpr hret.symm)]
    exact .kept rfl ((processDataIn_wsConn hcall).trans hplain)

/-- Neither a call of `on_data_` nor a write is a step. -/
private theorem filter_read (call : Option (Fin 16 × Bytes)) (writes : List Bytes) :
    ((call.map fun frame => Effect.onData frame.1 frame.2).toList ++
      writes.map Effect.write).filter isStep = [] := by
  rw [List.filter_eq_nil_iff]
  intro effect heffect
  rcases List.mem_append.mp heffect with hcall | hwrite
  · obtain ⟨frame, -, rfl⟩ := Option.map_eq_some_iff.mp (Option.mem_toList.mp hcall)
    exact Bool.false_ne_true
  · obtain ⟨data, -, rfl⟩ := List.mem_map.mp hwrite
    exact Bool.false_ne_true

/-- An event of a connection that was upgraded. -/
theorem pollEvent_websocket_steps {ws : WebsocketConnection σ} (hws : c.wsConn = some ws)
    {r : Served σ} (h : pollEvent regexMatch pingPong table c s user = some (.served r s')) :
    (∃ ws', (connAfter regexMatch pingPong table c s user).wsConn = some ws' ∧
        ws'.willCloseHook = ws.willCloseHook) ∧
      (r.conn.isNone = false ∧ r.effects.filter isStep = [] ∨
        r.conn.isNone = true ∧ r.effects.filter isStep =
          (callHook ws.willCloseHook [] (.wsWillCloseHook []) 0 user).2.2 ++ [.close]) := by
  unfold connAfter
  cases pollEvent_served h with
  | @websocket _ hws' _ _ hanswers o hread =>
    obtain rfl := Option.some.inj (hws.symm.trans hws')
    simp only [hws, hanswers, hread]
    -- a frame leaves the close hook as it is
    obtain ⟨buffer, lastPayload, hconn⟩ := websocketRead_conn hws hread
    refine ⟨⟨{ ws with lastPayload }, congrArg Connection.wsConn hconn, rfl⟩, ?_⟩
    unfold afterRead
    dsimp only
    generalize heffects : (Option.map _ o.call).toList ++ o.writes.map Effect.write = effects
    have hnone : effects.filter isStep = [] := by
      rw [← heffects]
      exact filter_read o.call o.writes
    split
    -- `Read` has failed or found a close frame, so the hook is called before `CloseConn`
    · right
      refine ⟨rfl, ?_⟩
      dsimp only
      rw [List.filter_append, List.filter_append, hnone]
      cases ws.willCloseHook <;> rfl
    · exact .inl ⟨rfl, hnone⟩
  | failed hplain => cases hws.symm.trans hplain
  | dispatched hdisp => cases hws.symm.trans hdisp.plain
  | incomplete hplain => cases hws.symm.trans hplain

end Httpoll.Native.Server
