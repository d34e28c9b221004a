import Httpoll.Spec.Dispatch
import Httpoll.Spec.HeaderSegmentation
import Httpoll.Spec.Requests

/-!
# Requests on a connection that is kept

A client sends a request without a body, waits for its handler to be called, and sends the
next one on the same connection. The parser is never reset: from the first request on it
stays in state `Done`, and every event is served by the handler of the first request.

## Key results

- `Kept.call`: an event after the first request calls a handler once, on one more line
- `KeepAlive.stage`: the stage that a run has reached
- `KeepAlive.one_call_each_iff`: there is one final call for each request exactly when all
  requests have the method and the URI of the first one, and no later one takes two events
-/

namespace Httpoll.Native.Server

open Connection HttpHeaderParser

variable {σ : Type}

/-! ## Runs -/

/-- A request that was sent, with what has happened since: the number of events, and the
    final handler calls they made. -/
structure Phase where
  request : Request
  events : Nat := 0
  calls : List (HttpMethod × Bytes) := []
  deriving DecidableEq

/-- The handler calls with `is_final`. -/
def finalCalls (effects : List Effect) : List (HttpMethod × Bytes) :=
  effects.filterMap fun
    | .handler method uri _ true => some (method, uri)
    | _ => none

/-- What is left after an event: the connection unless it is lost, the socket, and the final
    calls. The connection is lost when it is closed, and when the server goes down or hangs. -/
def afterEvent (s : Socket) : Option (EventResult σ) →
    Option (Option (Connection σ) × Socket × List (HttpMethod × Bytes))
  | some (.served r s') => some (r.conn, s', finalCalls r.effects)
  | some (.fault _) => some (none, s, [])
  | some .unfinished => none
  | none => some (none, s, [])

/-- A client that sends requests on one connection, each after a handler was called for the
    one before, and the events of this connection. There is an event only when the socket has
    something to read. -/
inductive KeepAlive (regexMatch : Bytes → Bytes → Option Bool) (pingPong : Bool)
    (table : HandlerTable σ) (fd : Int) (answers : List Answer) :
    List Phase → Option (Connection σ) → Socket → Prop where
  | start : KeepAlive regexMatch pingPong table fd answers [] (some { fd }) ⟨[], answers⟩
  | send {phases c s} (run : KeepAlive regexMatch pingPong table fd answers phases (some c) s)
    (r : Request) (hdispatched : ∀ ph ∈ phases.getLast?, ph.calls ≠ []) :
    KeepAlive regexMatch pingPong table fd answers (phases ++ [{ request := r }]) (some c)
      ⟨s.unread ++ r.bytes, s.answers⟩
  | event {phases ph c s conn s' calls}
    (run : KeepAlive regexMatch pingPong table fd answers (phases ++ [ph]) (some c) s)
    (hready : s.unread ≠ []) (user : σ)
    (h : afterEvent s (pollEvent regexMatch pingPong table c s user) = some (conn, s', calls)) :
    KeepAlive regexMatch pingPong table fd answers
      (phases ++ [{ ph with events := ph.events + 1, calls := ph.calls ++ calls }]) conn s'

/-- Every handler returns 0. -/
def KeepsConnections (table : HandlerTable σ) : Prop :=
  ∀ e ∈ table.entries, ∀ method handler, handlerAt e.2 method = .ok (some handler) →
    ∀ user uri body isFinal, (handler user uri body isFinal).ret = 0

/-- There is a handler for the method and the URI of the request. -/
def Routed (regexMatch : Bytes → Bytes → Option Bool) (table : HandlerTable σ) (r : Request) :
    Prop :=
  ∃ handlers handler, findRequestHandler regexMatch table r.uri = .ok (some handlers) ∧
    handlerAt handlers r.method = .ok (some handler)

variable {regexMatch : Bytes → Bytes → Option Bool} {pingPong : Bool} {table : HandlerTable σ}
  {c c' : Connection σ} {s s' : Socket} {user : σ} {ret : Int}

/-! ## The first request -/

/-- The header block of the request asks for an upgrade. -/
def Upgrades (r : Request) : Prop :=
  ∃ q, r.parse = some q ∧ ({ fd := 0, parser := q } : Connection Unit).shouldUpgradeWebsocket = true

theorem shouldUpgradeWebsocket_eq (hplain : c.wsConn = none) :
    c.shouldUpgradeWebsocket =
      ({ fd := 0, parser := c.parser } : Connection Unit).shouldUpgradeWebsocket := by
  unfold shouldUpgradeWebsocket
  rw [hplain]
  rfl

/-- The request leads to a call of its handler: its method is recognised, `PushLine` does not
    hang on it, and it asks for no upgrade. -/
def Callable (r : Request) : Prop :=
  r.method.Recognised ∧ r.parse ≠ none ∧ ¬ Upgrades r

/-- A handler that is found is in the table. -/
theorem findEntry_mem {uri : Bytes} {entries : List (Bytes × RequestHandler σ)}
    {handlers : RequestHandler σ} (h : findEntry regexMatch uri entries = .ok (some handlers)) :
    ∃ pattern, (pattern, handlers) ∈ entries := by
  induction entries with
  | nil => cases h
  | cons e rest ih =>
    unfold findEntry at h
    split at h
    · cases h
    · cases h
      exact ⟨e.1, List.mem_cons_self⟩
    · obtain ⟨pattern, hmem⟩ := ih h
      exact ⟨pattern, List.mem_cons_of_mem _ hmem⟩

/-- The key that the parser holds after a request with a recognised method. -/
theorem key_of_parse {r : Request} {q : HttpHeaderParser} (hq : r.parse = some q) :
    (r.method.Recognised → (q.method, q.uri) = r.key) ∧
      (¬ r.method.Recognised → q.method = .UNKNOWN) := by
  obtain ⟨-, hkey⟩ := Request.parse_spec hq
  obtain ⟨hmethod, huri⟩ := r.parseFirstLine_firstLine
  rw [hkey]
  constructor
  · intro hrec
    rw [hmethod, huri hrec, if_pos hrec]
    rfl
  · intro hrec
    rw [show q.method = _ from (Prod.mk.inj hkey).1, hmethod, if_neg hrec]

/-- The dispatch with the parser of a callable request: its handler is called, which keeps the
    connection. -/
theorem dispatch_callable (user : σ) (ret : Int) {r : Request} {q : HttpHeaderParser}
    (hkeeps : KeepsConnections table) (hroute : Routed regexMatch table r)
    (hcallable : Callable r) (hq : r.parse = some q) (hparser : c.parser = q)
    (hplain : c.wsConn = none) :
    ∃ left user', dispatch regexMatch table ret c user =
      .ok { conn := some { c with partialBody := left }, user := user',
            effects := [.handler r.method r.uri c.partialBody (ret = 1)] } := by
  obtain ⟨hmethod, huri⟩ := Prod.mk.inj ((key_of_parse hq).1 hcallable.1)
  rw [← hparser] at hmethod huri
  have hup : c.shouldUpgradeWebsocket = false := by
    rw [shouldUpgradeWebsocket_eq hplain, hparser]
    exact Bool.eq_false_iff.mpr fun htrue => hcallable.2.2 ⟨q, hq, htrue⟩
  obtain ⟨handlers, handler, hfind, hat⟩ := hroute
  rw [← huri] at hfind
  obtain ⟨pattern, hmem⟩ := findEntry_mem hfind
  -- the handler is one of the table, so it does not return -1
  have hret := hkeeps _ hmem _ _ hat user r.uri c.partialBody (ret = 1)
  rw [dispatch_found hfind, hup, if_neg Bool.false_ne_true, hmethod, hat]
  refine ⟨(handler user r.uri c.partialBody (ret = 1)).partialBody,
    (handler user r.uri c.partialBody (ret = 1)).user, ?_⟩
  simp only [callHandler, hmethod, huri]
  rw [if_neg (by rw [hret]; decide)]

/-! ## Events without a final call -/

theorem finalCalls_eq_nil {effects : List Effect}
    (h : ∀ method uri body isFinal, Effect.handler method uri body isFinal ∉ effects) :
    finalCalls effects = [] := by
  rw [finalCalls, List.filterMap_eq_nil_iff]
  intro e he
  split
  · exact absurd he (h _ _ _ _)
  · rfl

section

variable {method : HttpMethod} {uri body : Bytes} {isFinal : Bool}

private theorem handler_not_mem_callHook {hook : Option (WsHook σ)} {uri' : Bytes} {effect : Effect}
    {n : Int} {user : σ} (heffect : Effect.handler method uri body isFinal ≠ effect) :
    Effect.handler method uri body isFinal ∉ (callHook hook uri' effect n user).2.2 := by
  cases hook with
  | none => simp [callHook]
  | some hook => simpa [callHook] using heffect

private theorem handler_not_mem_connWrite {effect : Effect}
    (heffect : Effect.handler method uri body isFinal ≠ effect) :
    Effect.handler method uri body isFinal ∉ connWrite c effect := by
  unfold connWrite
  split
  · simp
  · simpa using heffect

theorem handler_not_mem_upgrade {handlers : RequestHandler σ} {ws : WebsocketConnection σ} :
    Effect.handler method uri body isFinal ∉ (upgrade handlers ws c user).effects := by
  unfold upgrade
  dsimp only
  split
  · simp [handler_not_mem_callHook]
  · split <;> simp [handler_not_mem_callHook, handler_not_mem_connWrite]

theorem handler_not_mem_afterRead {ws : WebsocketConnection σ}
    {o : WebsocketConnection.ReadOutcome σ} :
    Effect.handler method uri body isFinal ∉ (afterRead ws o).effects := by
  unfold afterRead
  dsimp only
  split
  · simp [handler_not_mem_callHook]
  · simp

end

/-- A dispatch that calls no handler: it fails, or the connection is closed or upgraded. -/
theorem dispatch_lost {r : Served σ} (h : dispatch regexMatch table ret c user = .ok r)
    (hlost : c.parser.method = .UNKNOWN ∨ c.shouldUpgradeWebsocket = true) :
    finalCalls r.effects = [] ∧ ∀ c', r.conn = some c' → c'.wsConn.isSome = true := by
  cases dispatch_answered h with
  | notFound =>
    refine ⟨finalCalls_eq_nil ?_, by simp⟩
    simp [handler_not_mem_connWrite]
  | upgraded _ _ hws =>
    refine ⟨finalCalls_eq_nil fun _ _ _ _ => handler_not_mem_upgrade, ?_⟩
    intro c' hc'
    -- the hooks may close the connection, otherwise it is upgraded
    obtain rfl := upgrade_conn hc'
    rw [upgradeToWebsocket_wsConn hws]
    rfl
  | called _ hup hat =>
    have hunknown := hlost.resolve_right (Bool.eq_false_iff.mp hup)
    rw [(handlerAt_error_iff _ _ _).mpr ⟨hunknown, rfl⟩] at hat
    cases hat

/-- An event of a connection that was upgraded. -/
theorem pollEvent_upgraded {conn : Option (Connection σ)} {calls : List (HttpMethod × Bytes)}
    (hws : c.wsConn.isSome = true)
    (h : afterEvent s (pollEvent regexMatch pingPong table c s user) = some (conn, s', calls)) :
    calls = [] ∧ ∀ c', conn = some c' → c'.wsConn.isSome = true := by
  obtain ⟨ws, hws⟩ := Option.isSome_iff_exists.mp hws
  simp only [pollEvent, hws, pollWebsocket] at h
  cases hanswers : s.answers with
  | nil => simp [hanswers, afterEvent] at h
  | cons a answers =>
    simp only [hanswers] at h
    -- no handler is called after the upgrade
    cases hread : ws.read pingPong c (a.read s.unread c.readLen).1 user with
    | error f =>
      rw [hread] at h
      cases h
      exact ⟨rfl, by simp⟩
    | ok o =>
      rw [hread] at h
      cases h
      exact ⟨finalCalls_eq_nil fun _ _ _ _ => handler_not_mem_afterRead,
        fun c' hc' => afterRead_conn hread hc'⟩

/-! ## A connection that is kept -/

/-- Some number of lines that fit the buffer. -/
def FittingLines (xs : Bytes) : Prop :=
  ∃ ls : List Bytes, (∀ l ∈ ls, Lines.IsLine CR LF l ∧ Fits l) ∧ xs = ls.flatten

/-- A connection after the first request, whose parser is `q`. The buffer and the unread
    bytes hold lines, and there is room in the buffer. -/
def Kept (q : HttpHeaderParser) (c : Connection σ) (unread : Bytes) : Prop :=
  c.parser = q ∧ c.buffer.length < SMALL_MEMORY ∧ FittingLines (c.buffer ++ unread)

/-- The outline of a call on such a connection: it returns 1 with the first line. -/
theorem keptOutline {q : HttpHeaderParser} (hdone : q.state = .Done) :
    CallOutline (σ := σ) Answer.Benign
      (fun c unread _ => Kept q c unread)
      (fun c unread _ => c.parser = q ∧ c.buffer.length ≤ SMALL_MEMORY ∧
        FittingLines (c.buffer ++ unread))
      (fun ret c unread _ => ret = 1 ∧ Kept q c unread) where
  closed hb hlen h := by
    -- there is room in the buffer, so the peer must have closed
    have hroom := h.2.1
    have hzero := hlen hb
    rw [readLen_of_le (by omega)] at hzero
    omega
  -- a parser that is done makes the call return 1 even when nothing was read
  again _ h := ⟨by rw [h.1, hdone]; rfl, h⟩
  retry h := ⟨h.1, Nat.le_of_lt h.2.1, h.2.2⟩
  data _ hle h := by
    obtain ⟨hq, hroom, ls, hls, hstream⟩ := h
    refine ⟨hq, length_append_le (Nat.le_of_lt hroom) hle, ls, hls, ?_⟩
    rw [← hstream, List.append_assoc]
  exhausted {c unread log} hex h := by
    obtain ⟨hq, -, ls, hls, hstream⟩ := h
    refine ⟨hq, ?_, ls, hls, hstream⟩
    -- what is left in the buffer is a part of a line
    cases ls with
    | nil =>
      rw [(List.append_eq_nil_iff.mp hstream).1]
      decide
    | cons l ls =>
      obtain ⟨hl, hfits⟩ := hls l List.mem_cons_self
      have hshort := length_lt_of_cut_none hl (hstream.trans List.flatten_cons) hex.1
      unfold Fits at hfits
      omega
  -- and it makes the call return with the first chunk
  push {c unread log chunk rest pb p} _ hp hgo h := by
    obtain ⟨rfl, -⟩ := h
    rw [pushLine_done hdone, Option.some.injEq] at hp
    exact absurd (.inl (hp ▸ hdone)) hgo
  stop {c unread log chunk rest pb p} htakes hp _ h := by
    obtain ⟨rfl, hlen, ls, hls, hstream⟩ := h
    rw [pushLine_done hdone, Option.some.injEq] at hp
    subst hp
    refine ⟨by rw [hdone]; rfl, rfl, ?_, ?_⟩
    · exact Nat.lt_of_lt_of_le htakes.length_rest_lt hlen
    · cases htakes with
      | slice _ _ hs => rw [hdone] at hs; cases hs
      -- the chunk is the first of the lines
      | line hcut =>
        have hfirst := Lines.cut_append unread hcut
        rw [hstream] at hfirst
        cases ls with
        | nil => cases hfirst
        | cons l ls =>
          rw [List.flatten_cons, (hls l List.mem_cons_self).1.cut_append, Option.some.injEq,
            Prod.mk.injEq] at hfirst
          exact ⟨ls, fun l hl => hls l (List.mem_cons_of_mem _ hl), hfirst.2.symm⟩

/-- `ProcessDataIn` does not upgrade the connection. -/
theorem processDataIn_wsConn {log : List Pushed}
    (h : c.processDataIn s = some (.returned ret c' s' log)) : c'.wsConn = c.wsConn :=
  call_invariant (J := fun c' _ _ => c'.wsConn = c.wsConn) (fun _ _ h => h) (fun _ _ h => h)
    [] rfl h

/-- An event of a connection that was not upgraded. -/
theorem pollEvent_plain {conn : Option (Connection σ)} {calls : List (HttpMethod × Bytes)}
    (hplain : c.wsConn = none)
    (h : afterEvent s (pollEvent regexMatch pingPong table c s user) = some (conn, s', calls)) :
    c.processDataIn s = none ∧ conn = none ∧ calls = [] ∨
      ∃ ret c₁ s₁ log, c.processDataIn s = some (.returned ret c₁ s₁ log) ∧
        (ret = -2 ∨ ret = -1 ∧ conn = some c₁ ∧ s' = s₁ ∧ calls = [] ∨
          (ret = 0 ∨ ret = 1) ∧
            ((∃ f, dispatch regexMatch table ret c₁ user = .error f) ∧ conn = none ∧ calls = [] ∨
              ∃ r, dispatch regexMatch table ret c₁ user = .ok r ∧ conn = r.conn ∧ s' = s₁ ∧
                calls = finalCalls r.effects)) := by
  simp only [pollEvent, hplain, pollHttp] at h
  cases hcall : c.processDataIn s with
  | none =>
    simp only [hcall, afterEvent, Option.some.injEq, Prod.mk.injEq] at h
    exact .inl ⟨rfl, h.1.symm, h.2.2.symm⟩
  | some result =>
    cases result with
    | unfinished c₁ unread log => simp [hcall, afterEvent] at h
    | returned ret c₁ s₁ log =>
      refine .inr ⟨ret, c₁, s₁, log, rfl, ?_⟩
      simp only [hcall] at h
      split at h
      · rename_i hret
        exact .inl hret
      split at h
      · rename_i hret
        refine .inr (.inr ⟨hret.symm, ?_⟩)
        cases hdisp : dispatch regexMatch table ret c₁ user with
        | error f =>
          simp only [hdisp, afterDispatch, afterEvent, Option.some.injEq, Prod.mk.injEq] at h
          exact .inl ⟨⟨f, rfl⟩, h.1.symm, h.2.2.symm⟩
        | ok r =>
          simp only [hdisp, afterDispatch, afterEvent, Option.some.injEq, Prod.mk.injEq] at h
          exact .inr ⟨r, rfl, h.1.symm, h.2.1.symm, h.2.2.symm⟩
      · rename_i hclosed hret
        simp only [afterEvent, Option.some.injEq, Prod.mk.injEq] at h
        -- what is left is -1, as the call returns -2, -1, 0 or 1
        refine .inr (.inl ⟨?_, h.1.symm, h.2.1.symm, h.2.2.symm⟩)
        rcases processDataIn_ret hcall with rfl | rfl
        · exact absurd rfl hclosed
        · exact stateRet_of_not_stops fun hstop => hret (stateRet_of_stops hstop).symm

/-! ## The stages of a run -/

/-- The stage that a run has reached. -/
inductive Stage : List Phase → Option (Connection σ) → Socket → Prop where
  /-- Nothing has been sent. -/
  | fresh {fd s} (hbenign : ∀ a ∈ s.answers, a.Benign) (hunread : s.unread = []) :
    Stage [] (some { fd }) s
  /-- The first request has not been read to its end. -/
  | reading {r n c s} (hbenign : ∀ a ∈ s.answers, a.Benign) (hplain : c.wsConn = none)
    (hread : BetweenReads r.parse [] c s.unread) :
    Stage [{ request := r, events := n }] (some c) s
  /-- The handler of the first request has been called, and the parser stays as it was then. -/
  | keeping {ph later c q s} (hbenign : ∀ a ∈ s.answers, a.Benign) (hplain : c.wsConn = none)
    (hq : ph.request.parse = some q) (hcallable : Callable ph.request)
    (hcalls : ph.calls = [ph.request.key])
    (hlater : ∀ ph' ∈ later, ph'.calls = List.replicate ph'.events ph.request.key)
    (hkept : Kept q c s.unread) (hnil : later = [] → s.unread = []) :
    Stage (ph :: later) (some c) s
  /-- The first request has led to no call, and none will come. -/
  | lost {r n conn s} (hr : ¬ Callable r)
    (hconn : ∀ c, conn = some c → c.wsConn.isSome = true) :
    Stage [{ request := r, events := n }] conn s

/-- An event while the first request is being read. -/
theorem reading_event {r : Request} {n : Nat} {conn : Option (Connection σ)}
    {calls : List (HttpMethod × Bytes)} (hkeeps : KeepsConnections table)
    (hroute : Routed regexMatch table r) (hbenign : ∀ a ∈ s.answers, a.Benign)
    (hplain : c.wsConn = none) (hread : BetweenReads r.parse [] c s.unread)
    (h : afterEvent s (pollEvent regexMatch pingPong table c s user) = some (conn, s', calls)) :
    Stage [{ request := r, events := n + 1, calls }] conn s' := by
  rcases pollEvent_plain hplain h with ⟨hhang, rfl, rfl⟩ | ⟨ret, c₁, s₁, log, hcall, hcases⟩
  · -- `PushLine` hangs on a line of the request
    refine .lost (fun hcallable => ?_) (by simp)
    obtain ⟨q, hq⟩ := Option.ne_none_iff_exists'.mp hcallable.2.1
    rw [hq] at hread
    exact hread.processDataIn_ne_none hhang
  have hplain₁ : c₁.wsConn = none := (processDataIn_wsConn hcall).trans hplain
  obtain ⟨hpost, hsuffix⟩ := (headerOutline r.parse []).returned hbenign hread hcall
  have hbenign₁ : ∀ a ∈ s₁.answers, a.Benign := fun a ha => hbenign a (hsuffix.subset ha)
  rcases hpost with ⟨rfl, hnext⟩ | ⟨q, hq, hret, hparser, hrest⟩
  · rcases hcases with hret | ⟨-, rfl, rfl, rfl⟩ | ⟨hret, -⟩
    · omega
    · exact .reading hbenign₁ hplain₁ hnext
    · omega
  · -- the request has been read to its end
    obtain ⟨hdone, -⟩ := Request.parse_spec hq
    obtain rfl : ret = 1 := by rw [hret, hdone]; rfl
    obtain ⟨hbuffer, hunread⟩ := List.append_eq_nil_iff.mp hrest
    by_cases hcallable : Callable r
    · obtain ⟨left, user', hdisp⟩ := dispatch_callable user 1 hkeeps hroute
        hcallable hq hparser hplain₁
      rcases hcases with hret | ⟨hret, -⟩ | ⟨-, ⟨⟨f, hf⟩, -⟩ | ⟨served, hok, rfl, rfl, rfl⟩⟩
      · omega
      · omega
      · cases hdisp.symm.trans hf
      · obtain rfl := Except.ok.inj (hdisp.symm.trans hok)
        refine .keeping hbenign₁ hplain₁ hq hcallable rfl (by simp) ?_ (fun _ => hunread)
        exact ⟨hparser, by simp [hbuffer, SMALL_MEMORY], [], by simp, by simp [hbuffer, hunread]⟩
    · have hlost : c₁.parser.method = .UNKNOWN ∨ c₁.shouldUpgradeWebsocket = true := by
        by_cases hrec : r.method.Recognised
        · have hupgrades : Upgrades r := by
            by_contra hnot
            exact hcallable ⟨hrec, by rw [hq]; exact Option.some_ne_none q, hnot⟩
          obtain ⟨q', hq', htrue⟩ := hupgrades
          obtain rfl := Option.some.inj (hq.symm.trans hq')
          rw [shouldUpgradeWebsocket_eq hplain₁, hparser]
          exact .inr htrue
        · exact .inl (by rw [hparser]; exact (key_of_parse hq).2 hrec)
      rcases hcases with hret | ⟨hret, -⟩ | ⟨-, ⟨-, rfl, rfl⟩ | ⟨served, hok, rfl, rfl, rfl⟩⟩
      · omega
      · omega
      · exact .lost hcallable (by simp)
      · obtain ⟨hcalls, hconn⟩ := dispatch_lost hok hlost
        rw [hcalls]
        exact .lost hcallable hconn

/-- An event after the first request calls its handler once more. -/
theorem kept_event {r : Request} {q : HttpHeaderParser} {conn : Option (Connection σ)}
    {calls : List (HttpMethod × Bytes)} (hkeeps : KeepsConnections table)
    (hroute : Routed regexMatch table r) (hbenign : ∀ a ∈ s.answers, a.Benign)
    (hplain : c.wsConn = none) (hq : r.parse = some q) (hcallable : Callable r)
    (hkept : Kept q c s.unread)
    (h : afterEvent s (pollEvent regexMatch pingPong table c s user) = some (conn, s', calls)) :
    calls = [r.key] ∧ (∀ a ∈ s'.answers, a.Benign) ∧
      ∃ c', conn = some c' ∧ c'.wsConn = none ∧ Kept q c' s'.unread := by
  -- a parser in state `Done` takes any line at once, so the call cannot hang
  obtain ⟨hdone, -⟩ := Request.parse_spec hq
  rcases pollEvent_plain hplain h with ⟨hhang, -⟩ | ⟨ret, c₁, s₁, log, hcall, hcases⟩
  · refine absurd hhang ((keptOutline hdone).processDataIn_ne_none ?_ hkept)
    intro c unread log chunk rest pb _ hJ
    rw [hJ.1, pushLine_done hdone]
    exact Option.some_ne_none q
  have hplain₁ : c₁.wsConn = none := (processDataIn_wsConn hcall).trans hplain
  -- the call returns 1, for the request that was parsed before
  obtain ⟨⟨rfl, hkept₁⟩, hsuffix⟩ := (keptOutline hdone).returned hbenign hkept hcall
  obtain ⟨left, user', hdisp⟩ := dispatch_callable user 1 hkeeps hroute hcallable
    hq hkept₁.1 hplain₁
  rcases hcases with hret | ⟨hret, -⟩ | ⟨-, ⟨⟨f, hf⟩, -⟩ | ⟨served, hok, rfl, rfl, rfl⟩⟩
  · omega
  · omega
  · cases hdisp.symm.trans hf
  · obtain rfl := Except.ok.inj (hdisp.symm.trans hok)
    exact ⟨rfl, fun a ha => hbenign a (hsuffix.subset ha), _, rfl, hplain₁, hkept₁⟩

/-! ## Runs go through the stages -/

theorem Stage.send {phases : List Phase} (h : Stage phases (some c) s) {r : Request}
    (hfits : ∀ l ∈ r.lines, Fits l) (hdispatched : ∀ ph ∈ phases.getLast?, ph.calls ≠ []) :
    Stage (phases ++ [{ request := r }]) (some c) ⟨s.unread ++ r.bytes, s.answers⟩ := by
  have hlines : ∀ l ∈ r.lines, Lines.IsLine CR LF l ∧ Fits l := fun l hl =>
    ⟨r.isLine_of_mem hl, hfits l hl⟩
  cases h with
  | fresh hbenign hunread =>
    have hfeeds : Feeds Fits {} r.lines r.parse :=
      Feeds.of_headers rfl (by decide) (fun l hl => hlines l (List.mem_append_left _ hl))
        (fun l hl => (r.header_lines l hl).2.1)
    refine .reading hbenign rfl ⟨⟨r.lines, hfeeds, ?_⟩, rfl⟩
    simp [hunread, Request.bytes]
  -- the lines of the new request come after those that are left
  | keeping hbenign hplain hq hcallable hcalls hlater hkept hnil =>
    obtain ⟨hparser, hroom, ls, hls, hstream⟩ := hkept
    refine .keeping hbenign hplain hq hcallable hcalls ?_ ⟨hparser, hroom, ls ++ r.lines, ?_, ?_⟩ ?_
    · intro ph hph
      rcases List.mem_append.mp hph with hph | hph
      · exact hlater ph hph
      · rw [List.mem_singleton.mp hph]
        rfl
    · intro l hl
      rcases List.mem_append.mp hl with hl | hl
      · exact hls l hl
      · exact hlines l hl
    · rw [← List.append_assoc, hstream, List.flatten_append]
      rfl
    · intro hnew
      exact absurd hnew (by simp)
  -- a client sends the next request only after the last one was answered
  | reading => exact absurd rfl (hdispatched _ rfl)
  | lost => exact absurd rfl (hdispatched _ rfl)

private theorem append_singleton_eq_cons {α : Type} {xs ys : List α} {x y : α}
    (h : xs ++ [x] = y :: ys) :
    xs = [] ∧ x = y ∧ ys = [] ∨ ∃ zs, xs = y :: zs ∧ ys = zs ++ [x] := by
  cases xs with
  | nil =>
    obtain ⟨rfl, rfl⟩ := List.cons.inj h
    exact .inl ⟨rfl, rfl, rfl⟩
  | cons z zs =>
    obtain ⟨rfl, rfl⟩ := List.cons.inj h
    exact .inr ⟨zs, rfl, rfl⟩

theorem Stage.event {phases : List Phase} {ph : Phase} {conn : Option (Connection σ)}
    {calls : List (HttpMethod × Bytes)} (h : Stage (phases ++ [ph]) (some c) s)
    (hkeeps : KeepsConnections table)
    (hroutes : ∀ ph' ∈ phases ++ [ph], Routed regexMatch table ph'.request)
    (hready : s.unread ≠ [])
    (hevent : afterEvent s (pollEvent regexMatch pingPong table c s user) =
      some (conn, s', calls)) :
    Stage (phases ++ [{ ph with events := ph.events + 1, calls := ph.calls ++ calls }])
      conn s' := by
  generalize hall : phases ++ [ph] = all at h hroutes
  generalize hc : some c = live at h
  cases h with
  | fresh => exact absurd hall (by simp)
  | reading hbenign hplain hread =>
    cases hc
    rcases append_singleton_eq_cons hall with ⟨rfl, rfl, -⟩ | ⟨zs, -, hnil⟩
    · exact reading_event hkeeps (hroutes _ List.mem_cons_self) hbenign hplain hread hevent
    · exact absurd hnil (by simp)
  | keeping hbenign hplain hq hcallable hcalls hlater hkept hnil =>
    cases hc
    rcases append_singleton_eq_cons hall with ⟨-, -, hlast⟩ | ⟨mid, rfl, rfl⟩
    · -- an event needs something to read, and after one request nothing is left
      exact absurd (hnil hlast) hready
    obtain ⟨rfl, hbenign', c', rfl, hplain', hkept'⟩ := kept_event hkeeps
      (hroutes _ List.mem_cons_self) hbenign hplain hq hcallable hkept hevent
    refine .keeping hbenign' hplain' hq hcallable hcalls ?_ hkept' ?_
    · intro ph' hph'
      rcases List.mem_append.mp hph' with hph' | hph'
      · exact hlater ph' (List.mem_append_left _ hph')
      · rw [List.mem_singleton.mp hph', List.replicate_succ']
        dsimp only
        rw [hlater ph (List.mem_append_right _ List.mem_cons_self)]
    · exact fun hnew => absurd hnew (by simp)
  | lost hr hconn =>
    cases hc
    rcases append_singleton_eq_cons hall with ⟨rfl, rfl, -⟩ | ⟨zs, -, hnil⟩
    · obtain ⟨rfl, hconn'⟩ := pollEvent_upgraded (hconn c rfl) hevent
      exact .lost hr hconn'
    · exact absurd hnil (by simp)

/-- Every run is at one of the stages. -/
theorem KeepAlive.stage {fd : Int} {answers : List Answer} {phases : List Phase}
    {conn : Option (Connection σ)}
    (run : KeepAlive regexMatch pingPong table fd answers phases conn s)
    (hbenign : ∀ a ∈ answers, a.Benign) (hkeeps : KeepsConnections table)
    (hroutes : ∀ ph ∈ phases, Routed regexMatch table ph.request)
    (hfits : ∀ ph ∈ phases, ∀ l ∈ ph.request.lines, Fits l) : Stage phases conn s := by
  induction run with
  | start => exact .fresh hbenign rfl
  | send run r hdispatched ih =>
    have hstage := ih (fun ph hph => hroutes ph (List.mem_append_left _ hph))
      (fun ph hph => hfits ph (List.mem_append_left _ hph))
    exact hstage.send (hfits _ (List.mem_append_right _ List.mem_cons_self)) hdispatched
  | @event phases ph c s conn s' calls run hready user h ih =>
    -- the requests are those of before
    have hold : ∀ {P : Request → Prop}, (∀ ph' ∈ phases ++
        [{ ph with events := ph.events + 1, calls := ph.calls ++ calls }], P ph'.request) →
        ∀ ph' ∈ phases ++ [ph], P ph'.request := by
      intro P hP ph' hph'
      rcases List.mem_append.mp hph' with hph' | hph'
      · exact hP ph' (List.mem_append_left _ hph')
      · rw [List.mem_singleton.mp hph']
        exact hP { ph with events := ph.events + 1, calls := ph.calls ++ calls }
          (List.mem_append_right _ List.mem_cons_self)
    have hroutes' := hold hroutes
    exact (ih hroutes' (hold (P := fun r => ∀ l ∈ r.lines, Fits l) hfits)).event hkeeps hroutes'
      hready h

/-! ## One call for each request -/

/-- There is one final call for each request, with its method and its URI. -/
def OneCallEach (phases : List Phase) : Prop :=
  ∀ ph ∈ phases, ph.calls = [ph.request.key]

/-- The first request is callable, and each later one has the same method and URI and takes
    one event. -/
def SameRequest : List Phase → Prop
  | [] => True
  | ph :: later =>
    Callable ph.request ∧ ∀ ph' ∈ later, ph'.request.key = ph.request.key ∧ ph'.events = 1

/-- **Keep-alive.** Take any run in which handlers keep the connection, at a point where the
    server has served all that was sent. Each request has had one final call of its own exactly
    when the first one is callable, and each later one has the method and the URI of the first
    and was read in one event. -/
theorem KeepAlive.one_call_each_iff {fd : Int} {answers : List Answer} {phases : List Phase}
    {conn : Option (Connection σ)}
    (run : KeepAlive regexMatch pingPong table fd answers phases conn s)
    (hserved : conn = none ∨ s.unread = []) (hbenign : ∀ a ∈ answers, a.Benign)
    (hkeeps : KeepsConnections table)
    (hroutes : ∀ ph ∈ phases, Routed regexMatch table ph.request)
    (hfits : ∀ ph ∈ phases, ∀ l ∈ ph.request.lines, Fits l) :
    OneCallEach phases ↔ SameRequest phases := by
  cases run.stage hbenign hkeeps hroutes hfits with
  | fresh => simp [OneCallEach, SameRequest]
  | reading hbenign hplain hread =>
    -- part of the request is still unread
    have hroom := hread.room.2
    rw [hserved.resolve_left (by simp)] at hroom
    exact absurd hroom (by simp)
  -- each later event has called the handler of the first request
  | @keeping ph later c q s _ _ hq hcallable hcalls hlater _ _ =>
    have hone : ∀ ph' ∈ later, ph'.calls = [ph'.request.key] ↔
        ph'.request.key = ph.request.key ∧ ph'.events = 1 := by
      intro ph' hph'
      rw [hlater ph' hph']
      constructor
      · intro h
        have hevents : ph'.events = 1 := by simpa using congrArg List.length h
        rw [hevents] at h
        exact ⟨(List.cons.inj h).1.symm, hevents⟩
      · rintro ⟨hkey, hevents⟩
        rw [hevents, hkey]
        rfl
    simp only [OneCallEach, SameRequest, List.forall_mem_cons, hcalls, hcallable, true_and]
    exact forall₂_congr hone
  | @lost r n conn s hr _ =>
    simp [OneCallEach, SameRequest, hr]

/-! ## Two requests -/

/-- A step of a client: it sends a request, or there is an event. -/
def playStep (regexMatch : Bytes → Bytes → Option Bool) (table : HandlerTable σ) (user : σ) :
    List Phase × Option (Connection σ) × Socket → Option Request →
    Option (List Phase × Option (Connection σ) × Socket)
  | (phases, some c, s), some r =>
    if ∀ ph ∈ phases.getLast?, ph.calls ≠ [] then
      some (phases ++ [{ request := r }], some c, ⟨s.unread ++ r.bytes, s.answers⟩)
    else none
  | (phases, some c, s), none =>
    match phases.getLast? with
    | some ph =>
      if s.unread = [] then none
      else
        (afterEvent s (pollEvent regexMatch true table c s user)).map fun (conn, s', calls) =>
          (phases.dropLast ++ [{ ph with events := ph.events + 1, calls := ph.calls ++ calls }],
            conn, s')
    | none => none
  | (_, none, _), _ => none

theorem keepAlive_of_play {fd : Int} {answers : List Answer} {steps : List (Option Request)}
    {st st' : List Phase × Option (Connection σ) × Socket}
    (run : KeepAlive regexMatch true table fd answers st.1 st.2.1 st.2.2)
    (h : steps.foldlM (playStep regexMatch table user) st = some st') :
    KeepAlive regexMatch true table fd answers st'.1 st'.2.1 st'.2.2 := by
  refine Runs.invariant (P := fun _ _ => True)
    (I := fun st => KeepAlive regexMatch true table fd answers st.1 st.2.1 st.2.2) ?_ run
    (Runs.along_of_forall (fun _ _ _ => trivial) st) h
  intro st step st' run _ hstep
  unfold playStep at hstep
  split at hstep
  · split at hstep
    · rename_i hdispatched
      cases hstep
      exact .send run _ hdispatched
    · cases hstep
  · split at hstep
    -- without a new request the event belongs to the last phase
    · rename_i ph hlast
      split at hstep
      · cases hstep
      · rename_i hready
        obtain ⟨⟨conn, s', calls⟩, hevent, rfl⟩ := Option.map_eq_some_iff.mp hstep
        have hphases := List.dropLast_append_getLast? ph hlast
        rw [← hphases] at run
        exact .event run hready user hevent
    · cases hstep
  · cases hstep

private def getRequest (uri : Bytes) (h : uri ≠ [] ∧ SP ∉ uri ∧ CR ∉ uri) : Request where
  method := .GET
  uri := uri
  version := ascii "HTTP/1.1"
  headers := []
  method_known := by decide
  uri_ne_nil := h.1
  uri_text := h.2
  version_text := by decide
  header_lines := by simp
  no_body := by simp

private def getA : Request := getRequest (ascii "/a") (by decide)

private def getB : Request := getRequest (ascii "/b") (by decide)

private theorem anyTable_keeps : KeepsConnections anyTable := by
  intro e he method handler hat user uri body isFinal
  obtain rfl : e = (insertDots (ascii "*"), keepHandlers) := List.mem_singleton.mp he
  have hlt : method.toNat < HttpMethod.UNKNOWN.toNat := by
    rw [toNat_lt_iff]
    intro hu
    cases hat.symm.trans ((handlerAt_error_iff keepHandlers method _).mpr ⟨hu, rfl⟩)
  simp only [handlerAt, keepHandlers, Vector.getElem?_replicate, hlt, if_true, Except.ok.injEq,
    Option.some.injEq] at hat
  rw [← hat]

private theorem anyTable_routes_getA :
    Routed (fun p t => some (simpleMatch p t)) anyTable getA :=
  ⟨keepHandlers, fun user _ _ _ => { ret := 0, partialBody := [], user }, rfl, rfl⟩

private theorem anyTable_routes_getB :
    Routed (fun p t => some (simpleMatch p t)) anyTable getB :=
  ⟨keepHandlers, fun user _ _ _ => { ret := 0, partialBody := [], user }, rfl, rfl⟩

private theorem getA_callable : Callable getA := by
  refine ⟨by decide, by decide, ?_⟩
  rintro ⟨q, hq, hup⟩
  have hnot : getA.parse.map (fun q =>
      ({ fd := 0, parser := q } : Connection Unit).shouldUpgradeWebsocket) = some false := by decide
  rw [hq, Option.map_some, hup] at hnot
  cases hnot

private theorem keepAlive_of_script (answers : List Answer) (steps : List (Option Request))
    (phases : List Phase)
    (h : (steps.foldlM (playStep (fun p t => some (simpleMatch p t)) anyTable ())
      ([], some { fd := 4 }, ⟨[], answers⟩)).map (fun st => (st.1, st.2.2.unread)) =
        some (phases, [])) :
    ∃ conn s, KeepAlive (fun p t => some (simpleMatch p t)) true anyTable 4 answers phases conn s ∧
      s.unread = [] := by
  obtain ⟨⟨phases', conn, s⟩, hplay, hst⟩ := Option.map_eq_some_iff.mp h
  obtain ⟨rfl, hunread⟩ := Prod.mk.inj hst
  exact ⟨conn, s, keepAlive_of_play .start hplay, hunread⟩

/-- A request that is sent twice, each time read in one event. -/
theorem KeepAlive.same_request_twice :
    ∃ phases conn s, KeepAlive (σ := Unit) (fun p t => some (simpleMatch p t)) true anyTable 4
      [.ready 99, .ready 99] phases conn s ∧ s.unread = [] ∧
      phases.map Phase.request = [getA, getA] ∧ OneCallEach phases := by
  obtain ⟨conn, s, run, hunread⟩ := keepAlive_of_script [.ready 99, .ready 99]
    [some getA, none, some getA, none]
    [⟨getA, 1, [getA.key]⟩, ⟨getA, 1, [getA.key]⟩] (by decide +kernel)
  refine ⟨_, conn, s, run, hunread, rfl, ?_⟩
  refine (KeepAlive.one_call_each_iff run (.inr hunread) (by decide) anyTable_keeps ?_ ?_).mpr ?_
  · simpa using anyTable_routes_getA
  · simpa using (by decide : ∀ l ∈ getA.lines, Fits l)
  · exact ⟨getA_callable, by simp⟩

/-- The second of two requests is served as if it were the first one again. -/
theorem KeepAlive.second_request_misrouted :
    KeepsConnections anyTable ∧
      (∀ r ∈ [getA, getB], Routed (fun p t => some (simpleMatch p t)) anyTable r) ∧
      ∃ phases conn s, KeepAlive (σ := Unit) (fun p t => some (simpleMatch p t)) true anyTable 4
        [.ready 99, .ready 99] phases conn s ∧ s.unread = [] ∧
        phases.map Phase.request = [getA, getB] ∧ ¬ OneCallEach phases := by
  refine ⟨anyTable_keeps, ?_, ?_⟩
  · simpa using ⟨anyTable_routes_getA, anyTable_routes_getB⟩
  obtain ⟨conn, s, run, hunread⟩ := keepAlive_of_script [.ready 99, .ready 99]
    [some getA, none, some getB, none]
    [⟨getA, 1, [getA.key]⟩, ⟨getB, 1, [getA.key]⟩] (by decide +kernel)
  exact ⟨_, conn, s, run, hunread, rfl, by unfold OneCallEach; decide⟩

end Httpoll.Native.Server
