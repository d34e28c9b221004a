import Mathlib.Data.List.Nodup
import Httpoll.ForStd.Runs
import Httpoll.Native.Poll
import Httpoll.Spec.Dispatch

/-!
# The clients of the server

What holds of the connections and of their descriptors between two calls on the server,
whatever the kernel answers and whatever the callbacks do.

## Key results

- `afterServed_rule`, `step_rule`: the invariant rules for an event and for a call
- `pollOne_round`: what one round of the loop of `Poll` can do
- `Inv.run`: what holds of the clients holds after every run
-/

namespace Httpoll.Native.Server

open Connection

variable {σ : Type} {regexMatch : Bytes → Bytes → Option Bool} {pingPong : Bool}
  {table : HandlerTable σ}

/-! ## The connection after an event -/

theorem upgradeToWebsocket_fd (c : Connection σ) (onMsg : Option (WsHandler σ))
    (hook : Option (WsHook σ)) : (c.upgradeToWebsocket onMsg hook).2.fd = c.fd := by
  unfold upgradeToWebsocket
  split
  · rfl
  · split <;> rfl

theorem connAfterDispatch_fd (ret : Int) (c : Connection σ) (user : σ) :
    (connAfterDispatch regexMatch table ret c user).fd = c.fd := by
  unfold connAfterDispatch
  split
  · split
    · exact upgradeToWebsocket_fd c _ _
    · split <;> rfl
  · rfl

/-- `Read` changes the buffer only. -/
theorem read_conn (c : Connection σ) (r : ReadResult) :
    ∃ buffer, (c.read r).2 = { c with buffer } := by
  unfold Connection.read
  cases r with
  | data bytes =>
    dsimp only
    split
    · exact ⟨_, rfl⟩
    · exact ⟨c.buffer, rfl⟩
  | error e => cases e <;> exact ⟨c.buffer, rfl⟩

/-- A frame changes the buffer and the payload that is held. -/
theorem websocketRead_conn {ws : WebsocketConnection σ} {c : Connection σ} {r : ReadResult}
    {user : σ} {o : WebsocketConnection.ReadOutcome σ} (hws : c.wsConn = some ws)
    (h : ws.read pingPong c r user = .ok o) :
    ∃ buffer lastPayload,
      o.conn = { c with buffer, wsConn := some { ws with lastPayload } } := by
  obtain ⟨buffer, hread⟩ := read_conn c r
  unfold WebsocketConnection.read at h
  dsimp only at h
  rw [hread] at h
  split at h
  · -- no frame is read
    cases h
    refine ⟨buffer, ws.lastPayload, ?_⟩
    rw [← hws]
  · cases hframe : WebsocketConnection.readFrame buffer with
    | error f => rw [hframe] at h; cases h
    | ok frame =>
      rw [hframe] at h
      cases h
      exact ⟨[], handleFrame_conn ws _ user frame⟩

theorem processDataIn_fd {c c' : Connection σ} {s s' : Socket} {ret : Int} {log : List Pushed}
    (h : c.processDataIn s = some (.returned ret c' s' log)) : c'.fd = c.fd :=
  call_invariant (J := fun c' _ _ => c'.fd = c.fd) (fun _ _ h => h) (fun _ _ h => h) [] rfl h

/-- No event changes the descriptor. -/
theorem connAfter_fd (c : Connection σ) (s : Socket) (user : σ) :
    (connAfter regexMatch pingPong table c s user).fd = c.fd := by
  unfold connAfter
  split
  · rename_i ws hws
    split
    · rfl
    · split
      · rename_i hread
        -- a frame changes `buffer_` and the payload that is kept, and nothing else
        obtain ⟨buffer, lastPayload, hconn⟩ := websocketRead_conn hws hread
        rw [hconn]
      · rfl
  · split
    · rename_i ret c₁ s₁ log hcall
      have hfd := processDataIn_fd hcall
      split
      · exact (connAfterDispatch_fd ret c₁ user).trans hfd
      · exact hfd
    · rfl

/-! ## What an event does to the clients -/

/-- What every call of `CloseConn` among `closes` keeps holds after them. -/
theorem closeConns_rule {P : ServerState σ → Prop} {s : ServerState σ}
    {closes : List (Nat × Bool)} (hs : P s)
    (hclose : ∀ s' id del, (id, del) ∈ closes → P s' → P (s'.closeConn id del).2) :
    P (s.closeConns closes) := by
  unfold ServerState.closeConns
  induction closes generalizing s with
  | nil => exact hs
  | cons close closes ih =>
    refine ih (hclose s close.1 close.2 List.mem_cons_self hs) ?_
    exact fun s' id del hmem => hclose s' id del (List.mem_cons_of_mem close hmem)

/-- The server after the callbacks of an event, before any connection is closed. -/
def served (s : ServerState σ) (e : ClientEvent σ) (conn : Connection σ) (r : Served σ) :
    ServerState σ :=
  { s.setConn e.id conn with
    requestHandlers :=
      if r.effects.any Effect.isCallback then
        registerRequestHandlers s.requestHandlers e.registers
      else s.requestHandlers
    user := r.user
    log := s.log ++ r.effects.map fun effect => (e.id, effect) }

/-- What the callbacks of an event establish and the calls of `CloseConn` keep holds after
    the event. -/
theorem afterServed_rule {P : ServerState σ → Prop} {s : ServerState σ} {e : ClientEvent σ}
    {conn : Connection σ} {r : Served σ} (hserved : P (served s e conn r))
    (hclose : ∀ s' id del, (id, del) ∈ e.closes ∨ id = e.id → P s' → P (s'.closeConn id del).2) :
    P (afterServed s e conn r) := by
  have hcalled : P (if r.effects.any Effect.isCallback then
      (served s e conn r).closeConns e.closes else served s e conn r) := by
    split
    · exact closeConns_rule hserved fun s' id del hmem => hclose s' id del (.inl hmem)
    · exact hserved
  unfold afterServed
  dsimp only
  split
  · exact hclose _ e.id e.del (.inr rfl) hcalled
  · exact hcalled

/-- The server after `accept(2)`. -/
def withFd (s : ServerState σ) (fd : Int) : ServerState σ :=
  { s with openFds := fd :: s.openFds }

/-- The server with one more client. -/
def withClient (s : ServerState σ) (fd : Int) : ServerState σ :=
  { s with
    openFds := fd :: s.openFds
    epoll := s.epoll ++ [(fd, s.nextId)]
    pendingConns := s.pendingConns ++ [{ id := s.nextId, conn := { fd } }]
    nextId := s.nextId + 1 }

/-! ## Between two calls -/

/-- What holds of the clients and of what the kernel holds for them. -/
structure Inv (s : ServerState σ) : Prop where
  ids : (s.pendingConns.map Client.id).Nodup
  fresh : ∀ c ∈ s.pendingConns, c.id < s.nextId
  fds : (s.pendingConns.map Client.fd).Nodup
  opened : ∀ c ∈ s.pendingConns, 0 ≤ c.fd ∧ c.fd ∈ s.openFds
  epoll : s.epoll = s.pendingConns.map fun c => (c.fd, c.id)

namespace Inv

variable {s : ServerState σ}

theorem eq_of_id (h : Inv s) {c c' : Client σ} (hc : c ∈ s.pendingConns)
    (hc' : c' ∈ s.pendingConns) (hid : c.id = c'.id) : c = c' :=
  List.inj_on_of_nodup_map h.ids hc hc' hid

theorem eq_of_fd (h : Inv s) {c c' : Client σ} (hc : c ∈ s.pendingConns)
    (hc' : c' ∈ s.pendingConns) (hfd : c.fd = c'.fd) : c = c' :=
  List.inj_on_of_nodup_map h.fds hc hc' hfd

end Inv

theorem client?_eq_some {s : ServerState σ} {id : Nat} {c : Client σ} (h : s.client? id = some c) :
    c ∈ s.pendingConns ∧ c.id = id :=
  ⟨List.mem_of_find?_eq_some h, by simpa using List.find?_some h⟩

theorem client?_eq_none {s : ServerState σ} {id : Nat} :
    s.client? id = none ↔ id ∉ s.pendingConns.map Client.id := by
  simp [ServerState.client?]

/-- A client is found by its number. -/
theorem Inv.client?_of_mem {s : ServerState σ} (h : Inv s) {c : Client σ}
    (hc : c ∈ s.pendingConns) : s.client? c.id = some c := by
  cases hfind : s.client? c.id with
  | none =>
    rw [client?_eq_none] at hfind
    exact absurd (List.mem_map_of_mem hc) hfind
  | some c₁ =>
    obtain ⟨hmem₁, hid₁⟩ := client?_eq_some hfind
    rw [h.eq_of_id hmem₁ hc hid₁]

/-- `CloseConn` does nothing, or it takes a client out of everything. -/
theorem closeConn_cases {s : ServerState σ} (h : Inv s) (id : Nat) (del : Bool) :
    (s.closeConn id del).2 = s ∨
      ∃ c ∈ s.pendingConns, c.id = id ∧ del = true ∧
        (s.closeConn id del).2 =
          { s with
            epoll := s.epoll.filter (·.1 ≠ c.fd)
            openFds := s.openFds.filter (· ≠ c.fd)
            pendingConns := s.pendingConns.filter (·.id ≠ id) } := by
  unfold ServerState.closeConn
  cases hc : s.client? id with
  | none => exact .inl rfl
  | some c =>
    obtain ⟨hmem, hid⟩ := client?_eq_some hc
    cases del with
    | false => exact .inl rfl
    | true =>
      have hfd := (h.opened c hmem).1
      refine .inr ⟨c, hmem, hid, rfl, ?_⟩
      dsimp only
      -- a connection on the list has its descriptor, so the branch for -1 is not taken
      rw [if_neg (show ¬ c.fd = -1 by omega)]
      rfl

theorem Inv.closeConn {s : ServerState σ} (h : Inv s) (id : Nat) (del : Bool) :
    Inv (s.closeConn id del).2 := by
  rcases closeConn_cases h id del with heq | ⟨c, hc, hid, -, heq⟩
  · rw [heq]
    exact h
  · rw [heq]
    -- what holds of each client, and of each two, holds of those that stay
    have hsub : (s.pendingConns.filter (·.id ≠ id)).Sublist s.pendingConns := List.filter_sublist
    -- the clients that stay are those with another descriptor
    have hother : ∀ c' ∈ s.pendingConns, c'.fd = c.fd ↔ c'.id = id := by
      intro c' hc'
      constructor
      · intro hfd
        rw [h.eq_of_fd hc' hc hfd, hid]
      · intro hid'
        rw [h.eq_of_id hc' hc (hid'.trans hid.symm)]
    constructor
    · exact (hsub.map _).nodup h.ids
    · exact fun c' hc' => h.fresh c' (hsub.mem hc')
    · exact (hsub.map _).nodup h.fds
    · intro c' hc'
      obtain ⟨hmem, hne⟩ := List.mem_filter.mp hc'
      obtain ⟨hpos, hopen⟩ := h.opened c' hmem
      refine ⟨hpos, List.mem_filter.mpr ⟨hopen, ?_⟩⟩
      simpa [hother c' hmem] using hne
    · show s.epoll.filter _ = _
      rw [h.epoll, List.filter_map]
      congr 1
      apply List.filter_congr
      intro c' hc'
      simpa using hother c' hc'

/-- `CloseConn` frees the connection that it is called for. -/
theorem client?_closeConn (s : ServerState σ) (id : Nat) (del : Bool) (id' : Nat) :
    (s.closeConn id del).2.client? id' =
      if id' = id ∧ del = true then none else s.client? id' := by
  unfold ServerState.closeConn
  cases hc : s.client? id with
  | none =>
    dsimp only
    split
    · rename_i heq
      rw [heq.1, hc]
    · rfl
  | some c =>
    cases del with
    -- `epoll_ctl(2)` fails, and nothing is freed
    | false => rw [if_neg (by simp)]; rfl
    | true =>
      show (s.pendingConns.filter _).find? _ = _
      rw [List.find?_filter]
      -- only the entry with this number is taken out of the list
      by_cases heq : id' = id
      · rw [if_pos ⟨heq, rfl⟩, List.find?_eq_none]
        intro c' _
        simp [heq]
      · rw [if_neg (fun h => heq h.1)]
        show _ = s.pendingConns.find? _
        congr 1
        funext c'
        by_cases hid : c'.id = id' <;> simp [hid, heq]

theorem client?_setConn (s : ServerState σ) (id : Nat) (conn : Connection σ) (id' : Nat) :
    (s.setConn id conn).client? id' =
      (s.client? id').map fun c => if c.id = id then { c with conn } else c := by
  show (s.pendingConns.map _).find? _ = _
  rw [List.find?_map]
  congr 2
  funext c
  show decide ((if c.id = id then { c with conn } else c).id = id') = decide (c.id = id')
  split <;> rfl

/-- `CloseConn` changes no log and no number. -/
theorem closeConn_log (s : ServerState σ) (id : Nat) (del : Bool) :
    (s.closeConn id del).2.log = s.log ∧ (s.closeConn id del).2.nextId = s.nextId := by
  unfold ServerState.closeConn
  cases s.client? id with
  | none => exact ⟨rfl, rfl⟩
  | some c => cases del <;> exact ⟨rfl, rfl⟩

theorem map_id_setConn (s : ServerState σ) (id : Nat) (conn : Connection σ) :
    (s.setConn id conn).pendingConns.map Client.id = s.pendingConns.map Client.id := by
  show (s.pendingConns.map _).map Client.id = _
  rw [List.map_map]
  apply List.map_congr_left
  intro c _
  show (if c.id = id then { c with conn } else c).id = c.id
  split <;> rfl

/-- A connection with the same descriptor leaves what epoll watches as it is. -/
private theorem map_pair_setConn {s : ServerState σ} (h : Inv s) {c : Client σ} {id : Nat}
    (hc : s.client? id = some c) {conn : Connection σ} (hfd : conn.fd = c.fd) :
    (s.setConn id conn).pendingConns.map (fun c => (c.fd, c.id)) =
      s.pendingConns.map fun c => (c.fd, c.id) := by
  obtain ⟨hmem, hid⟩ := client?_eq_some hc
  show (s.pendingConns.map _).map _ = _
  rw [List.map_map]
  apply List.map_congr_left
  intro c' hc'
  -- only the connection with this number changes, and it keeps its descriptor
  by_cases hid' : c'.id = id
  · obtain rfl := h.eq_of_id hc' hmem (hid'.trans hid.symm)
    simp only [Function.comp_apply, if_pos hid', Client.fd, hfd]
  · simp only [Function.comp_apply, if_neg hid']

theorem map_fd_setConn {s : ServerState σ} (h : Inv s) {c : Client σ} {id : Nat}
    (hc : s.client? id = some c) {conn : Connection σ} (hfd : conn.fd = c.fd) :
    (s.setConn id conn).pendingConns.map Client.fd =
      s.pendingConns.map Client.fd := by
  have hfst := congrArg (List.map Prod.fst) (map_pair_setConn h hc hfd)
  simpa only [List.map_map, Function.comp_def] using hfst

theorem Inv.setConn {s : ServerState σ} (h : Inv s) {c : Client σ} {id : Nat}
    (hc : s.client? id = some c) {conn : Connection σ} (hfd : conn.fd = c.fd) :
    Inv (s.setConn id conn) := by
  constructor
  · rw [map_id_setConn]
    exact h.ids
  · intro c' hc'
    have hid := map_id_setConn s id conn ▸ List.mem_map_of_mem (f := Client.id) hc'
    -- the new list has the ids of the old one
    obtain ⟨c₁, hc₁, hid₁⟩ := List.mem_map.mp hid
    rw [← hid₁]
    exact h.fresh c₁ hc₁
  · rw [map_fd_setConn h hc hfd]
    exact h.fds
  · intro c' hc'
    have hfd' := map_fd_setConn h hc hfd ▸ List.mem_map_of_mem (f := Client.fd) hc'
    obtain ⟨c₁, hc₁, hfd₁⟩ := List.mem_map.mp hfd'
    rw [← hfd₁]
    exact h.opened c₁ hc₁
  · rw [map_pair_setConn h hc hfd]
    exact h.epoll

/-- The callbacks of an event leave the descriptors as they are. -/
theorem Inv.served {s : ServerState σ} (h : Inv s) {e : ClientEvent σ} {c : Client σ}
    (hc : s.client? e.id = some c) {conn : Connection σ} (hfd : conn.fd = c.fd)
    (r : Served σ) : Inv (served s e conn r) :=
  have hset := h.setConn hc hfd
  ⟨hset.ids, hset.fresh, hset.fds, hset.opened, hset.epoll⟩

theorem Inv.afterServed {s : ServerState σ} (h : Inv s) {e : ClientEvent σ} {c : Client σ}
    (hc : s.client? e.id = some c) {conn : Connection σ} (hfd : conn.fd = c.fd)
    (r : Served σ) : Inv (afterServed s e conn r) :=
  afterServed_rule (h.served hc hfd r) fun _ id del _ h' => h'.closeConn id del

/-- The connection after an event for which `CloseConn` may have been called. -/
def survivor (closed del : Bool) (after : Connection σ) : Option (Connection σ) :=
  if closed = true ∧ del = true then none else some after

/-- The client that an event is about, after the event. -/
theorem client?_afterServed_self {s : ServerState σ} {e : ClientEvent σ} {c : Client σ}
    (hc : s.client? e.id = some c) (conn : Connection σ) (r : Served σ) :
    ((afterServed s e conn r).client? e.id).map Client.conn =
      survivor r.conn.isNone e.del conn := by
  have hserved : ((served s e conn r).client? e.id).map Client.conn = some conn := by
    show ((s.setConn e.id conn).client? e.id).map Client.conn = _
    rw [client?_setConn, hc, Option.map_some, if_pos (client?_eq_some hc).2]
    rfl
  -- the callbacks close other connections only
  have hcalled : ((if r.effects.any Effect.isCallback then
      (served s e conn r).closeConns e.closes else served s e conn r).client? e.id).map
        Client.conn = some conn := by
    split
    · refine closeConns_rule (P := fun s' => (s'.client? e.id).map Client.conn = some conn)
        hserved ?_
      intro s' id del hclose hs'
      rw [client?_closeConn, if_neg (fun h => e.others (id, del) hclose h.1.symm)]
      exact hs'
    · exact hserved
  unfold afterServed survivor
  dsimp only
  by_cases hclosed : r.conn.isNone = true
  · rw [if_pos hclosed, client?_closeConn]
    by_cases hdel : e.del = true
    · rw [if_pos ⟨rfl, hdel⟩, if_pos ⟨hclosed, hdel⟩]
      rfl
    · have hdel₁ : ¬ (e.id = e.id ∧ e.del = true) := fun h => hdel h.2
      have hdel₂ : ¬ (r.conn.isNone = true ∧ e.del = true) := fun h => hdel h.2
      rw [if_neg hdel₁, if_neg hdel₂]
      exact hcalled
  · have hkept : ¬ (r.conn.isNone = true ∧ e.del = true) := fun h => hclosed h.1
    rw [if_neg hclosed, if_neg hkept]
    exact hcalled

/-- The other clients are left alone or freed. -/
theorem client?_afterServed_other {s : ServerState σ} {e : ClientEvent σ} {id : Nat}
    (hid : id ≠ e.id) (conn : Connection σ) (r : Served σ) :
    ((afterServed s e conn r).client? id).map Client.conn = (s.client? id).map Client.conn ∨
      (afterServed s e conn r).client? id = none := by
  have hserved : ((served s e conn r).client? id).map Client.conn =
      (s.client? id).map Client.conn := by
    show ((s.setConn e.id conn).client? id).map Client.conn = _
    rw [client?_setConn, Option.map_map]
    cases hc : s.client? id with
    | none => rfl
    | some c =>
      have hne : c.id ≠ e.id := fun h => hid ((client?_eq_some hc).2.symm.trans h)
      simp only [Option.map_some, Function.comp_apply, if_neg hne]
  -- after that it can only be closed, by what the handlers closed
  refine afterServed_rule (P := fun s' =>
    (s'.client? id).map Client.conn = (s.client? id).map Client.conn ∨ s'.client? id = none)
    (.inl hserved) ?_
  intro s' id' del _ hs'
  rw [client?_closeConn]
  split
  · exact .inr rfl
  · exact hs'

theorem afterServed_log (s : ServerState σ) (e : ClientEvent σ) (conn : Connection σ)
    (r : Served σ) :
    (afterServed s e conn r).log = s.log ++ r.effects.map (fun effect => (e.id, effect)) ∧
      (afterServed s e conn r).nextId = s.nextId := by
  refine afterServed_rule (P := fun s' =>
    s'.log = s.log ++ r.effects.map (fun effect => (e.id, effect)) ∧ s'.nextId = s.nextId)
    ⟨rfl, rfl⟩ ?_
  intro s' id del _ hs'
  obtain ⟨hlog, hnext⟩ := closeConn_log s' id del
  rw [hlog, hnext]
  exact hs'

theorem Inv.registerRequestHandler {s : ServerState σ} (h : Inv s) (uri : Bytes)
    (handler : RequestHandler σ) : Inv (s.registerRequestHandler uri handler) :=
  ⟨h.ids, h.fresh, h.fds, h.opened, h.epoll⟩

theorem Inv.withFd {s : ServerState σ} (h : Inv s) (fd : Int) : Inv (withFd s fd) :=
  ⟨h.ids, h.fresh, h.fds,
    fun c hc => ⟨(h.opened c hc).1, List.mem_cons_of_mem fd (h.opened c hc).2⟩, h.epoll⟩

/-- The new client has a number and a descriptor that no other one has. -/
theorem Inv.withClient {s : ServerState σ} (h : Inv s) {fd : Int} (hpos : 0 ≤ fd)
    (hnew : fd ∉ s.openFds) : Inv (withClient s fd) := by
  constructor
  · show ((s.pendingConns ++ [_]).map Client.id).Nodup
    rw [List.map_append, List.nodup_append]
    refine ⟨h.ids, List.nodup_singleton _, ?_⟩
    intro id hid id' hid'
    obtain ⟨c, hc, rfl⟩ := List.mem_map.mp hid
    rw [List.mem_singleton.mp hid']
    exact Nat.ne_of_lt (h.fresh c hc)
  · intro c hc
    rcases List.mem_append.mp hc with hc | hc
    · exact Nat.lt_succ_of_lt (h.fresh c hc)
    · rw [List.mem_singleton.mp hc]
      exact Nat.lt_succ_self _
  · show ((s.pendingConns ++ [_]).map Client.fd).Nodup
    rw [List.map_append, List.nodup_append]
    refine ⟨h.fds, List.nodup_singleton _, ?_⟩
    intro fd₁ hfd₁ fd₂ hfd₂
    obtain ⟨c, hc, rfl⟩ := List.mem_map.mp hfd₁
    rw [List.mem_singleton.mp hfd₂]
    -- the kernel does not give a descriptor twice, so it is not that of another client
    intro heq
    have hfd : c.fd = fd := heq
    exact hnew (hfd ▸ (h.opened c hc).2)
  · intro c hc
    rcases List.mem_append.mp hc with hc | hc
    · obtain ⟨hc₁, hc₂⟩ := h.opened c hc
      exact ⟨hc₁, List.mem_cons_of_mem fd hc₂⟩
    · rw [List.mem_singleton.mp hc]
      exact ⟨hpos, List.mem_cons_self⟩
  · show s.epoll ++ [_] = (s.pendingConns ++ [_]).map _
    rw [List.map_append, h.epoll]
    rfl

/-! ## Rounds of the loop -/

/-- What one round of the loop of `Poll` can do, and how it ends. -/
inductive Round (regexMatch : (pattern text : Bytes) → Option Bool) (pingPong : Bool)
    (s : ServerState σ) :
    PollEvent σ → Except (PollExit σ) (ServerState σ) → Prop where
  /-- `accept(2)` cannot give this descriptor. -/
  | impossible {answer : AcceptAnswer} :
    Round regexMatch pingPong s (.server answer) (.error .down)
  | refused {answer : AcceptAnswer} (hfd : answer.fd = none) :
    Round regexMatch pingPong s (.server answer) (.ok s)
  /-- `setsockopt(2)` fails. -/
  | notSet {answer : AcceptAnswer} {fd : Int} (hfd : answer.fd = some fd) (hnew : fd ∉ s.openFds)
    (hset : answer.setsockopt = false) :
    Round regexMatch pingPong s (.server answer) (.ok (withFd s fd))
  /-- `epoll_ctl(2)` fails. -/
  | notWatched {answer : AcceptAnswer} {fd : Int} (hfd : answer.fd = some fd)
    (hnew : fd ∉ s.openFds) (hadd : answer.add = false) :
    Round regexMatch pingPong s (.server answer) (.error (.returned (-4) (withFd s fd)))
  | registered {answer : AcceptAnswer} {fd : Int} (hfd : answer.fd = some fd) (hpos : 0 ≤ fd)
    (hnew : fd ∉ s.openFds) (hset : answer.setsockopt = true) (hadd : answer.add = true) :
    Round regexMatch pingPong s (.server answer) (.ok (withClient s fd))
  | dangling {e : ClientEvent σ} (hnone : s.client? e.id = none) :
    Round regexMatch pingPong s (.client e) (.error (.dangling e.id))
  /-- `EPOLLIN` is not set. -/
  | skipped {e : ClientEvent σ} :
    Round regexMatch pingPong s (.client e) (.ok s)
  | down {e : ClientEvent σ} : Round regexMatch pingPong s (.client e) (.error .down)
  | served {e : ClientEvent σ} {c : Client σ} (hc : s.client? e.id = some c)
    (hin : e.epollin = true) {r : Served σ} {s₁ : Socket}
    (hserved : pollEvent regexMatch pingPong s.requestHandlers c.conn e.socket s.user =
      some (.served r s₁)) :
    Round regexMatch pingPong s (.client e)
      (.ok (afterServed s e
        (connAfter regexMatch pingPong s.requestHandlers c.conn e.socket s.user) r))

private theorem pollServer_round (s : ServerState σ) (answer : AcceptAnswer) :
    Round regexMatch pingPong s (.server answer) (pollServer s answer) := by
  unfold pollServer
  by_cases hposs : AcceptPossible s answer
  · rw [if_neg (not_not_intro hposs)]
    unfold acceptNewConnection
    cases hfd : answer.fd with
    | none => exact .refused hfd
    | some fd =>
      -- each of the calls that come after `accept(2)` may fail
      obtain ⟨hpos, hnew⟩ := hposs fd hfd
      cases hset : answer.setsockopt with
      | false => exact .notSet hfd hnew hset
      | true =>
        cases hadd : answer.add with
        | false => exact .notWatched hfd hnew hadd
        | true => exact .registered hfd hpos hnew hset hadd
  · rw [if_pos hposs]
    exact .impossible

private theorem pollClient_round (s : ServerState σ) (e : ClientEvent σ) :
    Round regexMatch pingPong s (.client e)
      (pollClient regexMatch pingPong s e) := by
  unfold pollClient
  cases hc : s.client? e.id with
  | none => exact .dangling hc
  | some c =>
    dsimp only
    cases hin : e.epollin with
    | false => exact .skipped
    | true =>
      rw [if_pos rfl]
      -- only here is a call made to the connection
      cases hevent : pollEvent regexMatch pingPong s.requestHandlers c.conn e.socket s.user with
      | none => exact .down
      | some result =>
        cases result with
        | served r s₁ => exact .served hc hin hevent
        | fault f => exact .down
        | unfinished => exact .down

variable (regexMatch pingPong) in
/-- One round of the loop. -/
theorem pollOne_round (s : ServerState σ) (e : PollEvent σ) :
    Round regexMatch pingPong s e (pollOne regexMatch pingPong s e) := by
  cases e with
  | server answer => exact pollServer_round s answer
  | client e => exact pollClient_round s e

/-- The state in which a round of the loop leaves the server, if it goes on or returns. -/
def stateAfter : Except (PollExit σ) (ServerState σ) → Option (ServerState σ)
  | .ok s => some s
  | .error (.returned _ s) => some s
  | .error _ => none

/-- The invariant rule for a round of the loop. -/
theorem pollOne_rule {I : ServerState σ → Prop} {s s' : ServerState σ} {e : PollEvent σ}
    (hs : I s) (hfd : ∀ fd, I (withFd s fd))
    (hclient : ∀ fd, 0 ≤ fd → fd ∉ s.openFds → I (withClient s fd))
    (hafter : ∀ e' c r s₁, e = .client e' → s.client? e'.id = some c → e'.epollin = true →
      pollEvent regexMatch pingPong s.requestHandlers c.conn e'.socket s.user =
        some (.served r s₁) →
      I (afterServed s e'
        (connAfter regexMatch pingPong s.requestHandlers c.conn e'.socket s.user) r))
    (hs' : stateAfter (pollOne regexMatch pingPong s e) = some s') : I s' := by
  -- one case for each way in which a round can go; those that end the run are impossible here
  have hround := pollOne_round regexMatch pingPong s e
  generalize pollOne regexMatch pingPong s e = exit at hround hs'
  cases hround with
  | impossible => cases hs'
  | refused hnone =>
    cases hs'
    exact hs
  | notSet hsome hnew hset =>
    cases hs'
    exact hfd _
  | notWatched hsome hnew hadd =>
    cases hs'
    exact hfd _
  | registered hsome hpos hnew hset hadd =>
    cases hs'
    exact hclient _ hpos hnew
  | dangling hnone => cases hs'
  | skipped =>
    cases hs'
    exact hs
  | down => cases hs'
  | served hc hin hserved =>
    cases hs'
    exact hafter _ _ _ _ rfl hc hin hserved

theorem Inv.pollOne {s s' : ServerState σ} {e : PollEvent σ} (h : Inv s)
    (hs' : stateAfter (pollOne regexMatch pingPong s e) = some s') : Inv s' := by
  refine pollOne_rule h ?_ ?_ ?_ hs'
  · exact h.withFd
  · exact fun fd hpos hnew => h.withClient hpos hnew
  · exact fun e' c r s₁ _ hc _ _ => h.afterServed hc (connAfter_fd _ _ _) r

/-! ## Runs -/

/-- The events of a call. -/
def Call.events : Call σ → List (PollEvent σ)
  | .registerRequestHandler .. => []
  | .poll events => events.getD []
  | .closeConn .. => []

/-- The handlers that a call registers, or a callback during it. -/
def Call.registers : Call σ → List (Bytes × RequestHandler σ)
  | .registerRequestHandler uri handler => [(uri, handler)]
  | .poll events => (events.getD []).flatMap PollEvent.registers
  | .closeConn .. => []

/-- When `Poll` returns, its loop has come to its end or to an error of `epoll_ctl(2)`. -/
theorem stateAfter_of_step {events : List (PollEvent σ)} {s s' : ServerState σ}
    (hstep : step regexMatch pingPong s (.poll (some events)) = some s') :
    stateAfter (events.foldlM (pollOne regexMatch pingPong) s) = some s' := by
  unfold step poll at hstep
  dsimp only at hstep
  cases hround : events.foldlM (pollOne regexMatch pingPong) s with
  | ok s₁ =>
    rw [hround] at hstep
    exact hstep
  | error exit =>
    rw [hround] at hstep
    -- `Poll` returns early when it cannot set up a new connection, with the state at that point
    cases exit with
    | returned ret s₁ => exact hstep
    | dangling id => cases hstep
    | down => cases hstep

/-- The invariant rule for the loop of `Poll`, and for what is collected in its rounds. -/
theorem foldlM_pollOne_project {M : Type} (own : ServerState σ → PollEvent σ → List M)
    {I : ServerState σ → List M → Prop} {P : ServerState σ → PollEvent σ → Prop}
    (hone : ∀ s ms e s', I s ms → P s e →
      stateAfter (pollOne regexMatch pingPong s e) = some s' → I s' (ms ++ own s e))
    {events : List (PollEvent σ)} {s s' : ServerState σ} (ms : List M) (hs : I s ms)
    (hP : Runs.Along (fun s e => (pollOne regexMatch pingPong s e).toOption) P s events)
    (h : stateAfter (events.foldlM (pollOne regexMatch pingPong) s) = some s') :
    I s' (ms ++
      Runs.project (fun s e => (pollOne regexMatch pingPong s e).toOption) own s events) := by
  induction events generalizing s ms with
  | nil =>
    cases h
    rw [Runs.project, List.append_nil]
    exact hs
  | cons e events ih =>
    rw [List.foldlM_cons] at h
    obtain ⟨hfirst, hrest⟩ := hP
    rw [Runs.project, ← List.append_assoc]
    cases hround : pollOne regexMatch pingPong s e with
    | ok s₁ =>
      rw [hround] at h
      have hs₁ := hone s ms e s₁ hs hfirst (congrArg stateAfter hround)
      exact ih _ hs₁ (hrest s₁ (congrArg Except.toOption hround)) h
    | error exit =>
      -- `Poll` returns before the other events
      rw [hround] at h
      have hlast := hone s ms e s' hs hfirst ((congrArg stateAfter hround).trans h)
      rw [← List.append_nil (ms ++ _)] at hlast
      exact hlast

/-- The invariant rule for the loop of `Poll`. -/
private theorem foldlM_pollOne_rule {I : ServerState σ → Prop}
    {P : ServerState σ → PollEvent σ → Prop}
    (hone : ∀ s e s', I s → P s e →
      stateAfter (pollOne regexMatch pingPong s e) = some s' → I s')
    {events : List (PollEvent σ)} {s s' : ServerState σ} (hs : I s)
    (hP : Runs.Along (fun s e => (pollOne regexMatch pingPong s e).toOption) P s events)
    (h : stateAfter (events.foldlM (pollOne regexMatch pingPong) s) = some s') : I s' :=
  foldlM_pollOne_project (fun _ _ => []) (I := fun s _ => I s)
    (fun s _ e s' hs => hone s e s' hs) ([] : List Unit) hs hP h

/-- The invariant rule for a call: `RegisterRequestHandler` and `CloseConn` keep `I`, and so
    does each round of the loop of `Poll` for an event that meets `P`. -/
theorem step_rule {I : ServerState σ → Prop} {P : ServerState σ → PollEvent σ → Prop}
    {s s' : ServerState σ} {call : Call σ}
    (hregister : ∀ s, ∀ entry ∈ call.registers, I s →
      I (s.registerRequestHandler entry.1 entry.2))
    (hclose : ∀ s id del, I s → I (s.closeConn id del).2)
    (hone : ∀ s e s', I s → P s e →
      stateAfter (pollOne regexMatch pingPong s e) = some s' → I s') (hs : I s)
    (hP : Runs.Along (fun s e => (pollOne regexMatch pingPong s e).toOption) P s call.events)
    (hstep : step regexMatch pingPong s call = some s') : I s' := by
  cases call with
  | registerRequestHandler uri handler =>
    cases hstep
    exact hregister s (uri, handler) List.mem_cons_self hs
  | closeConn id del =>
    cases hstep
    exact hclose s id del hs
  | poll events =>
    cases events with
    | none =>
      -- `epoll_wait(2)` has failed
      cases hstep
      exact hs
    | some events => exact foldlM_pollOne_rule hone hs hP (stateAfter_of_step hstep)

/-- Every event of a run meets `P` when its turn comes. -/
def AlongEvents (regexMatch : (pattern text : Bytes) → Option Bool) (pingPong : Bool)
    (P : ServerState σ → PollEvent σ → Prop) (s : ServerState σ) (calls : List (Call σ)) : Prop :=
  Runs.Along (step regexMatch pingPong)
    (fun s call => Runs.Along (fun s e => (pollOne regexMatch pingPong s e).toOption) P s
      call.events) s calls

theorem AlongEvents.and {P P' : ServerState σ → PollEvent σ → Prop} {s : ServerState σ}
    {calls : List (Call σ)} (h : AlongEvents regexMatch pingPong P s calls)
    (h' : AlongEvents regexMatch pingPong P' s calls) :
    AlongEvents regexMatch pingPong (fun s e => P s e ∧ P' s e) s calls :=
  (Runs.Along.and h h').imp fun _ _ hcall => hcall.1.and hcall.2

/-- The invariant rule for a run. -/
theorem run_rule {I : ServerState σ → Prop} {P : ServerState σ → PollEvent σ → Prop}
    (hregister : ∀ s uri handler, I s → I (s.registerRequestHandler uri handler))
    (hclose : ∀ s id del, I s → I (s.closeConn id del).2)
    (hone : ∀ s e s', I s → P s e →
      stateAfter (pollOne regexMatch pingPong s e) = some s' → I s')
    {s s' : ServerState σ} {calls : List (Call σ)} (hs : I s)
    (hP : AlongEvents regexMatch pingPong P s calls)
    (hrun : calls.foldlM (step regexMatch pingPong) s = some s') : I s' :=
  Runs.invariant (fun _ _ _ hs hP hstep =>
    step_rule (fun s entry _ hs => hregister s entry.1 entry.2 hs) hclose hone hs hP hstep)
    hs hP hrun

theorem Inv.step {s s' : ServerState σ} {call : Call σ} (h : Inv s)
    (hstep : step regexMatch pingPong s call = some s') : Inv s' :=
  step_rule (P := fun _ _ => True) (fun _ entry _ h => h.registerRequestHandler entry.1 entry.2)
    (fun _ id del h => h.closeConn id del)
    (fun _ _ _ h _ hs' => h.pollOne hs') h (Runs.along_of_forall (fun _ _ _ => trivial) _) hstep

/-- What holds of the clients holds after every run. -/
theorem Inv.run {s s' : ServerState σ} {calls : List (Call σ)} (h : Inv s)
    (hrun : calls.foldlM (Server.step regexMatch pingPong) s = some s') : Inv s' :=
  Runs.invariant (P := fun _ _ => True) (fun _ _ _ h _ hstep => h.step hstep) h
    (Runs.along_of_forall (fun _ _ _ => trivial) _) hrun

theorem inv_init (user : σ) : Inv ({ user } : ServerState σ) :=
  ⟨List.nodup_nil, fun _ hc => absurd hc List.not_mem_nil, List.nodup_nil,
    fun _ hc => absurd hc List.not_mem_nil, rfl⟩

end Httpoll.Native.Server
