import Httpoll.Native.Server
import Httpoll.Spec.Turns

/-!
# The events of a connection

`Poll` serves a connection event by event, from its acceptance to the moment it is closed.
Between two events the server does other things: handlers may be registered, and the user
context may change. As long as the connection has not been upgraded, its events are turns.

## Key results

- `dispatch_answered`, `pollEvent_served`: what a dispatch and an event can do
- `pollEvent_cases`: what an event does to a connection that it does not close
- `Session.turns`: the events of a connection that was not upgraded are turns
-/

namespace Httpoll.Native.Server

open Connection

variable {σ : Type} {regexMatch : Bytes → Bytes → Option Bool} {pingPong : Bool}

/-- The events of a connection so far: none of them closed it. Each has a table of handlers
    and a user context of its own. -/
inductive Session (regexMatch : Bytes → Bytes → Option Bool) (pingPong : Bool)
    (c₀ : Connection σ) (s₀ : Socket) : Connection σ → Socket → Prop where
  | nil : Session regexMatch pingPong c₀ s₀ c₀ s₀
  | event {c s c' s' user' effects} (run : Session regexMatch pingPong c₀ s₀ c s)
    (table : HandlerTable σ) (user : σ)
    (h : pollEvent regexMatch pingPong table c s user =
      some (.served ⟨some c', user', effects⟩ s')) :
    Session regexMatch pingPong c₀ s₀ c' s'

/-- `ProcessDataIn` returns `ret`, 0 or 1, and the event goes on to the dispatch, with the
    connection `c'`. -/
structure Dispatches (c : Connection σ) (s : Socket) (ret : Int) (c' : Connection σ) (s' : Socket) :
    Prop where
  plain : c.wsConn = none
  ret_eq : ret = 0 ∨ ret = 1
  call : ∃ log, c.processDataIn s = some (.returned ret c' s' log)

variable {table : HandlerTable σ} {c c' : Connection σ} {s s' : Socket} {user user' : σ}
  {effects : List Effect}

/-- The event of a connection that goes on to the dispatch. -/
theorem Dispatches.pollEvent_eq {ret : Int} (h : Dispatches c s ret c' s') :
    pollEvent regexMatch pingPong table c s user =
      some (afterDispatch s' (dispatch regexMatch table ret c' user)) := by
  obtain ⟨log, hcall⟩ := h.call
  have hret : ret = 1 ∨ ret = 0 := h.ret_eq.symm
  have hne : ¬ ret = -2 := by omega
  simp only [pollEvent, h.plain, pollHttp, hcall, hne, if_false, if_pos hret]

/-! ## What an event can do -/

/-- What a dispatch can do that does not fail. -/
inductive Answered (regexMatch : Bytes → Bytes → Option Bool) (table : HandlerTable σ) (ret : Int)
    (c : Connection σ) (user : σ) : Served σ → Prop where
  | notFound (hfind : findRequestHandler regexMatch table c.parser.uri = .ok none) :
    Answered regexMatch table ret c user
      { conn := none, user, effects := connWrite c (.respond 404 c.parser.version) ++ [.close] }
  | upgraded {handlers : RequestHandler σ}
    (hfind : findRequestHandler regexMatch table c.parser.uri = .ok (some handlers))
    (hup : c.shouldUpgradeWebsocket = true) {ws : WebsocketConnection σ} {c' : Connection σ}
    (hws : c.upgradeToWebsocket handlers.wsMessageHandler handlers.wsWillCloseHook =
      (some ws, c')) :
    Answered regexMatch table ret c user (upgrade handlers ws c' user)
  | called {handlers : RequestHandler σ}
    (hfind : findRequestHandler regexMatch table c.parser.uri = .ok (some handlers))
    (hup : c.shouldUpgradeWebsocket = false) {handler : Option (Handler σ)}
    (hat : handlerAt handlers c.parser.method = .ok handler) :
    Answered regexMatch table ret c user (callHandler handler (ret = 1) c user)

theorem dispatch_answered {ret : Int} {r : Served σ}
    (h : dispatch regexMatch table ret c user = .ok r) :
    Answered regexMatch table ret c user r := by
  unfold dispatch at h
  cases hfind : findRequestHandler regexMatch table c.parser.uri with
  | error f => rw [hfind] at h; cases h
  | ok found =>
    rw [hfind] at h
    cases found with
    | none =>
      cases h
      exact .notFound hfind
    | some handlers =>
      simp only [bind, Except.bind] at h
      split at h
      · rename_i hup
        split at h
        · -- the null pointer brings the server down
          cases h
        · rename_i ws c' hws
          cases h
          exact .upgraded hfind hup hws
      · rename_i hup
        cases hat : handlerAt handlers c.parser.method with
        | error f => rw [hat] at h; cases h
        | ok handler =>
          rw [hat] at h
          cases h
          exact .called hfind (Bool.eq_false_iff.mpr hup) hat

/-- What an event can do that does not bring the server down. -/
inductive EventServed (regexMatch : Bytes → Bytes → Option Bool) (pingPong : Bool)
    (table : HandlerTable σ) (c : Connection σ) (s : Socket) (user : σ) :
    Served σ → Socket → Prop where
  | websocket {ws : WebsocketConnection σ} (hws : c.wsConn = some ws) {answer : Answer}
    {answers : List Answer} (hanswers : s.answers = answer :: answers)
    {o : WebsocketConnection.ReadOutcome σ}
    (hread : ws.read pingPong c (answer.read s.unread c.readLen).1 user = .ok o) :
    EventServed regexMatch pingPong table c s user (afterRead ws o)
      ⟨(answer.read s.unread c.readLen).2, answers⟩
  /-- `ProcessDataIn` returns -2. -/
  | failed (hplain : c.wsConn = none) {c' : Connection σ} {s' : Socket} {log : List Pushed}
    (hcall : c.processDataIn s = some (.returned (-2) c' s' log)) :
    EventServed regexMatch pingPong table c s user { conn := none, user, effects := [.close] } s'
  | dispatched {ret : Int} {c' : Connection σ} {s' : Socket} (hdisp : Dispatches c s ret c' s')
    {r : Served σ} (hr : dispatch regexMatch table ret c' user = .ok r) :
    EventServed regexMatch pingPong table c s user r s'
  /-- The request is not complete. -/
  | incomplete (hplain : c.wsConn = none) {ret : Int} {c' : Connection σ} {s' : Socket}
    {log : List Pushed} (hret : ret ≠ 0 ∧ ret ≠ 1)
    (hcall : c.processDataIn s = some (.returned ret c' s' log)) (hopen : ret ≠ -2) :
    EventServed regexMatch pingPong table c s user { conn := some c', user, effects := [] } s'

theorem pollEvent_served {r : Served σ}
    (h : pollEvent regexMatch pingPong table c s user = some (.served r s')) :
    EventServed regexMatch pingPong table c s user r s' := by
  unfold pollEvent at h
  split at h
  · rename_i ws hws
    rw [Option.some.injEq] at h
    -- a connection that was upgraded: one `Read`, which takes a frame
    unfold pollWebsocket at h
    split at h
    · cases h
    · rename_i answer answers hanswers
      dsimp only at h
      split at h
      · rename_i o hread
        cases h
        exact .websocket hws hanswers hread
      · cases h
  · rename_i hplain
    -- any other: `ProcessDataIn`, and what it returns says how the event goes on
    unfold pollHttp at h
    split at h
    · cases h
    · cases h
    · rename_i ret c₁ s₁ log hcall
      split at h
      · rename_i hret
        subst hret
        cases h
        exact .failed hplain hcall
      rename_i hopen
      split at h
      · rename_i hret
        -- 0 or 1, and the dispatch does not bring the server down
        cases hr : dispatch regexMatch table ret c₁ user with
        | error f => rw [hr] at h; cases h
        | ok r =>
          rw [hr] at h
          cases h
          exact .dispatched ⟨hplain, hret.symm, log, hcall⟩ hr
      · rename_i hret
        cases h
        exact .incomplete hplain ⟨fun h => hret (.inr h), fun h => hret (.inl h)⟩ hcall hopen

/-! ## What an event does to the connection -/

/-- `UpgradeToWebsocket` changes nothing else when it does not fail. -/
theorem upgradeToWebsocket_eq {onMsg : Option (WsHandler σ)} {hook : Option (WsHook σ)}
    {ws : WebsocketConnection σ} (h : c.upgradeToWebsocket onMsg hook = (some ws, c')) :
    c' = { c with wsConn := some ws } := by
  unfold upgradeToWebsocket at h
  split at h
  · rename_i ws' hws
    cases h
    rw [← hws]
  · split at h
    · cases (Prod.mk.inj h).1
    · cases h
      rfl

/-- What `UpgradeToWebsocket` makes of a connection that was not upgraded. -/
theorem upgradeToWebsocket_new (hplain : c.wsConn = none) {onMsg : Option (WsHandler σ)}
    {hook : Option (WsHook σ)} {ws : WebsocketConnection σ}
    (h : c.upgradeToWebsocket onMsg hook = (some ws, c')) :
    ∃ key, (wsKeyNames.map c.parser.getHeader).find? (· != []) = some key ∧
      ws = { wsKey := key, onData := onMsg, willCloseHook := hook } := by
  unfold upgradeToWebsocket at h
  rw [hplain] at h
  dsimp only at h
  cases hkey : (wsKeyNames.map c.parser.getHeader).find? (· != []) with
  | none =>
    -- without a key there is no `ws_conn_`
    rw [hkey] at h
    cases h
  | some key =>
    rw [hkey] at h
    cases h
    exact ⟨key, rfl, rfl⟩

/-- `UpgradeToWebsocket` leaves the connection upgraded when it does not fail. -/
theorem upgradeToWebsocket_wsConn {onMsg : Option (WsHandler σ)} {hook : Option (WsHook σ)}
    {ws : WebsocketConnection σ} (h : c.upgradeToWebsocket onMsg hook = (some ws, c')) :
    c'.wsConn = some ws := by
  rw [upgradeToWebsocket_eq h]

/-- An upgrade does not change the connection. -/
theorem upgrade_conn {handlers : RequestHandler σ} {ws : WebsocketConnection σ}
    (h : (upgrade handlers ws c user).conn = some c') : c' = c := by
  unfold upgrade at h
  dsimp only at h
  split at h
  · cases h
  · split at h
    · cases h
    · exact (Option.some.inj h).symm

/-- A dispatch that does not close the connection has upgraded it, or a handler was called and
    the connection is as before but for `partial_body_`. -/
theorem dispatch_conn {ret : Int} {r : Served σ}
    (h : dispatch regexMatch table ret c user = .ok r) (hc : r.conn = some c') :
    (∃ ws, c' = { c with wsConn := some ws }) ∨ ∃ left, c' = { c with partialBody := left } := by
  cases dispatch_answered h with
  | notFound => cases hc
  | upgraded _ _ hws =>
    -- the upgrade keeps the connection it is given or closes it
    obtain rfl := upgrade_conn hc
    exact .inl ⟨_, upgradeToWebsocket_eq hws⟩
  | called =>
    unfold callHandler at hc
    split at hc
    · cases hc
    · dsimp only at hc
      split at hc
      · cases hc
      · -- the handler was called, and keeps the connection
        exact .inr ⟨_, (Option.some.inj hc).symm⟩

/-- A negative result of `Read` is -1. -/
theorem eq_neg_one_of_read {r : ReadResult} {ret : Int} (h : c.read r = (ret, c'))
    (hneg : ret < 0) : ret = -1 := by
  unfold Connection.read at h
  split at h
  · split at h <;> cases h
    · omega
    · rfl
  · split at h
    · cases h; omega
    · split at h <;> cases h
      · omega
      · rfl

/-- Handling a frame changes the payload that is held, and nothing else of the connection. -/
theorem handleFrame_conn (ws : WebsocketConnection σ) (c : Connection σ) (user : σ)
    (frame : WebsocketConnection.RawFrame) :
    ∃ lastPayload, (ws.handleFrame pingPong c user frame).conn =
      { c with wsConn := some { ws with lastPayload } } := by
  unfold WebsocketConnection.handleFrame
  dsimp only
  split
  · exact ⟨_, rfl⟩
  split
  · exact ⟨_, rfl⟩
  split
  · exact ⟨_, rfl⟩
  split
  · split <;> exact ⟨_, rfl⟩
  · exact ⟨_, rfl⟩

/-- A connection that is kept after a `Read` is the one that this has left. -/
theorem afterRead_eq_some {ws : WebsocketConnection σ} {o : WebsocketConnection.ReadOutcome σ}
    (hc : (afterRead ws o).conn = some c') : o.ret ≠ -1 ∧ c' = o.conn := by
  unfold afterRead at hc
  dsimp only at hc
  split at hc
  · cases hc
  · rename_i hret
    exact ⟨hret, (Option.some.inj hc).symm⟩

/-- A connection that was upgraded stays so. -/
theorem afterRead_conn {ws : WebsocketConnection σ} {r : ReadResult}
    {o : WebsocketConnection.ReadOutcome σ} (h : ws.read pingPong c r user = .ok o)
    (hc : (afterRead ws o).conn = some c') : c'.wsConn.isSome = true := by
  have hconn := afterRead_eq_some hc
  unfold WebsocketConnection.read at h
  split at h
  rename_i ret c₁ hread
  split at h
  · rename_i hneg
    cases h
    exact absurd (eq_neg_one_of_read hread hneg) hconn.1
  · cases hframe : WebsocketConnection.readFrame c₁.buffer with
    | error f => rw [hframe] at h; cases h
    | ok frame =>
      rw [hframe] at h
      cases h
      rw [hconn.2]
      obtain ⟨lastPayload, hkept⟩ := handleFrame_conn ws _ user frame
      rw [hkept]
      rfl

/-- What an event does to a connection that it does not close: it stays or becomes upgraded,
    or `ProcessDataIn` has returned and at most `partial_body_` has changed since. -/
theorem pollEvent_cases
    (h : pollEvent regexMatch pingPong table c s user =
      some (.served ⟨some c', user', effects⟩ s')) :
    c'.wsConn.isSome = true ∨ c.wsConn = none ∧
      ((∃ ret log, (ret ≠ 0 ∧ ret ≠ 1) ∧ c.processDataIn s = some (.returned ret c' s' log)) ∨
        ∃ ret c₁ left, Dispatches c s ret c₁ s' ∧ c' = { c₁ with partialBody := left }) := by
  have hserved := pollEvent_served h
  generalize hr : (⟨some c', user', effects⟩ : Served σ) = r at hserved
  have hc : r.conn = some c' := by rw [← hr]
  cases hserved with
  | websocket _ _ hread => exact .inl (afterRead_conn hread hc)
  | failed => cases hc
  | @dispatched ret c₁ _ hdisp _ hr =>
    rcases dispatch_conn hr hc with ⟨ws, rfl⟩ | ⟨left, hleft⟩
    · exact .inl rfl
    · exact .inr ⟨hdisp.plain, .inr ⟨ret, c₁, left, hdisp, hleft⟩⟩
  | @incomplete hplain ret _ _ log hret hcall =>
    obtain rfl := Option.some.inj hc
    exact .inr ⟨hplain, .inl ⟨ret, log, hret, hcall⟩⟩

/-- The events of a connection that was not upgraded are turns. -/
theorem Session.turns {c₀ : Connection σ} {s₀ : Socket}
    (run : Session regexMatch pingPong c₀ s₀ c s) (h : c.wsConn = none) :
    ∃ ts, Turns c₀ s₀ ts c s := by
  induction run with
  | nil => exact ⟨[], .nil⟩
  | event run table user hevent ih =>
    rcases pollEvent_cases hevent with hws | ⟨hplain, hturn⟩
    · rw [h] at hws
      cases hws
    · obtain ⟨ts, hts⟩ := ih hplain
      rcases hturn with ⟨ret, log, hret, hcall⟩ | ⟨ret, c₁, left, hdisp, rfl⟩
      · exact ⟨_, .wait hts hcall hret⟩
      · obtain ⟨log, hcall⟩ := hdisp.call
        exact ⟨_, .handle hts hcall hdisp.ret_eq left⟩

end Httpoll.Native.Server
