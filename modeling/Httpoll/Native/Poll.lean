import Httpoll.Native.Server

/-!
# `Server::Poll`

The loop of `Poll` over the events of one `epoll_wait(2)`, and what it does to the connections
of the server: `AcceptNewConnection` and `CloseConn`. The system calls succeed or fail as an
event says. So do the calls of `CloseConn` that the user's callbacks make for other
connections, which a callback does through `Connection::Close` or on the server. Callbacks may
also register handlers.

A `Connection` is known by a number, which stands for its address; no two connections of a run
have the same. The set-up of the listening socket and the pings of `ServerPing` are left out.
-/

namespace Httpoll.Native

variable {σ : Type}

/-- A `Connection` of `pending_conns_`. -/
structure Client (σ : Type) where
  id : Nat
  conn : Connection σ

/-- `fd_` -/
def Client.fd (c : Client σ) : Int := c.conn.fd

/-- The handlers and the clients of `hpl::Server`, and what the kernel holds for it. -/
structure ServerState (σ : Type) where
  requestHandlers : HandlerTable σ := .empty
  pendingConns : List (Client σ) := []
  /-- The number of the next `Connection`. -/
  nextId : Nat := 0
  /-- The client descriptors that epoll watches, with the connection in `data.ptr`. -/
  epoll : List (Int × Nat) := []
  /-- The descriptors that `accept(2)` has given and that were not closed. -/
  openFds : List Int := []
  user : σ
  /-- What the events of each connection did. The code has no such log. -/
  log : List (Nat × Effect) := []

/-- The calls of `RegisterRequestHandler` with these arguments, one after the other. -/
def registerRequestHandlers (table : HandlerTable σ) (registers : List (Bytes × RequestHandler σ)) :
    HandlerTable σ :=
  registers.foldl (fun table entry => registerRequestHandler table entry.1 entry.2) table

namespace ServerState

/-- The connection at an address, if it was not freed. -/
def client? (s : ServerState σ) (id : Nat) : Option (Client σ) :=
  s.pendingConns.find? (·.id = id)

/-- The connection at an address changes. -/
def setConn (s : ServerState σ) (id : Nat) (conn : Connection σ) : ServerState σ :=
  { s with pendingConns := s.pendingConns.map fun c => if c.id = id then { c with conn } else c }

/-- `RegisterRequestHandler` -/
def registerRequestHandler (s : ServerState σ) (uri : Bytes) (handler : RequestHandler σ) :
    ServerState σ :=
  { s with requestHandlers := Native.registerRequestHandler s.requestHandlers uri handler }

/-! ## `CloseConn` -/

/-- `CloseConn`; `del` says whether its `epoll_ctl(2)` succeeds. -/
def closeConn (s : ServerState σ) (id : Nat) (del : Bool) : Int × ServerState σ :=
  match s.client? id with
  | none => (-1, s)
  | some c =>
    if del then
      (0, { s with
        epoll := s.epoll.filter (·.1 ≠ c.fd)
        openFds := if c.fd = -1 then s.openFds else s.openFds.filter (· ≠ c.fd)
        pendingConns := s.pendingConns.filter (·.id ≠ id) })
    else (-1, s)

/-- The calls of `CloseConn` that callbacks make, one after the other. -/
def closeConns (s : ServerState σ) (closes : List (Nat × Bool)) : ServerState σ :=
  closes.foldl (fun s close => (s.closeConn close.1 close.2).2) s

end ServerState

/-! ## Events -/

/-- How the kernel answers the calls that accept a connection. -/
structure AcceptAnswer where
  /-- `accept(2)` -/
  fd : Option Int
  /-- Whether `setsockopt(2)` succeeds. -/
  setsockopt : Bool
  /-- Whether `epoll_ctl(2)` succeeds. -/
  add : Bool
  deriving Repr, DecidableEq

/-- An event of a connection. -/
structure ClientEvent (σ : Type) where
  id : Nat
  /-- Whether `EPOLLIN` is set. -/
  epollin : Bool := true
  /-- What there is to read, and the answers of the kernel to the `read(2)` calls. -/
  socket : Socket
  /-- The connections that the callbacks of the event close, if any callback is called, and
      whether `epoll_ctl(2)` succeeds. -/
  closes : List (Nat × Bool) := []
  /-- A callback does not close the connection that it is called for. -/
  others : ∀ close ∈ closes, close.1 ≠ id
  /-- The handlers that the callbacks register, for other patterns than that of the event. -/
  registers : List (Bytes × RequestHandler σ) := []
  /-- Whether the `epoll_ctl(2)` of `CloseConn` for the connection itself succeeds. -/
  del : Bool := true

/-- `EPOLLIN` of a connection; no callback closes another one or registers a handler. -/
def ClientEvent.plain (id : Nat) (socket : Socket) : ClientEvent σ :=
  { id, socket, others := fun _ h => absurd h List.not_mem_nil }

@[simp] theorem ClientEvent.plain_closes (id : Nat) (socket : Socket) :
    (plain id socket : ClientEvent σ).closes = [] := rfl

@[simp] theorem ClientEvent.plain_registers (id : Nat) (socket : Socket) :
    (plain id socket : ClientEvent σ).registers = [] := rfl

/-- An event of the array that `epoll_wait(2)` fills. -/
inductive PollEvent (σ : Type) where
  | server (answer : AcceptAnswer)
  | client (e : ClientEvent σ)

namespace PollEvent

/-- `data.ptr`; `none` stands for `server_conn_`. -/
def ptr : PollEvent σ → Option Nat
  | server _ => none
  | client e => some e.id

/-- The connections that the callbacks of the event close. -/
def closes : PollEvent σ → List (Nat × Bool)
  | server _ => []
  | client e => e.closes

/-- The handlers that the callbacks of the event register. -/
def registers : PollEvent σ → List (Bytes × RequestHandler σ)
  | server _ => []
  | client e => e.registers

end PollEvent

/-- How a call of `Poll` ends. -/
inductive PollExit (σ : Type) where
  | returned (ret : Int) (s : ServerState σ)
  /-- `Poll` dereferences a `Connection` that was freed. -/
  | dangling (id : Nat)
  /-- An event does not end or brings the server down, or the kernel cannot answer so. -/
  | down

/-- A callback of the user is called. -/
def Effect.isCallback : Effect → Bool
  | .handler .. | .wsConnectHook _ | .wsReadyHook _ | .wsWillCloseHook _ | .onData .. => true
  | .respond .. | .switchProtocols .. | .write _ | .close => false

namespace Server

/-! ## Accepting -/

/-- `AcceptNewConnection` -/
def acceptNewConnection (s : ServerState σ) (answer : AcceptAnswer) :
    Option (Connection σ) × ServerState σ :=
  match answer.fd with
  | none => (none, s)
  | some fd =>
    let s := { s with openFds := fd :: s.openFds }
    if answer.setsockopt then (some { fd }, s)
    else (none, s) -- `client_fd` is not closed

/-- `accept(2)` gives a descriptor that is not open. -/
def AcceptPossible (s : ServerState σ) (answer : AcceptAnswer) : Prop :=
  ∀ fd ∈ answer.fd, 0 ≤ fd ∧ fd ∉ s.openFds

instance (s : ServerState σ) (answer : AcceptAnswer) : Decidable (AcceptPossible s answer) :=
  inferInstanceAs (Decidable (∀ fd ∈ answer.fd, _))

/-- `Poll` on an event of `server_conn_`. -/
def pollServer (s : ServerState σ) (answer : AcceptAnswer) :
    Except (PollExit σ) (ServerState σ) :=
  if ¬ AcceptPossible s answer then .error .down
  else
    match acceptNewConnection s answer with
    | (none, s) => .ok s
    | (some conn, s) =>
      if answer.add then
        .ok { s with
          epoll := s.epoll ++ [(conn.fd, s.nextId)]
          pendingConns := s.pendingConns ++ [{ id := s.nextId, conn }]
          nextId := s.nextId + 1 }
      else .error (.returned (-4) s) -- `new_conn` is freed, its descriptor is not closed

/-! ## The connection after an event -/

variable (regexMatch : (pattern text : Bytes) → Option Bool)

/-- The connection after the dispatch of a request. -/
def connAfterDispatch (table : HandlerTable σ) (ret : Int) (c : Connection σ) (user : σ) :
    Connection σ :=
  match findRequestHandler regexMatch table c.parser.uri with
  | .ok (some handlers) =>
    if c.shouldUpgradeWebsocket then
      (c.upgradeToWebsocket handlers.wsMessageHandler handlers.wsWillCloseHook).2
    else
      match handlerAt handlers c.parser.method with
      | .ok (some handler) =>
        { c with
          partialBody := (handler user c.parser.uri c.partialBody (ret = 1)).partialBody }
      | _ => c
  | _ => c

/-- The connection after an event, also when `CloseConn` is called for it, which frees it
    unless `epoll_ctl(2)` fails. -/
def connAfter (pingPong : Bool) (table : HandlerTable σ) (c : Connection σ) (s : Socket)
    (user : σ) : Connection σ :=
  match c.wsConn with
  | some ws =>
    match s.answers with
    | [] => c
    | answer :: _ =>
      match ws.read pingPong c (answer.read s.unread c.readLen).1 user with
      | .ok o => o.conn
      | .error _ => c
  | none =>
    match c.processDataIn s with
    | some (.returned ret c _ _) =>
      if ret = 1 ∨ ret = 0 then connAfterDispatch regexMatch table ret c user else c
    | _ => c

/-! ## The loop of `Poll` -/

/-- What an event that was served does to the server: the connection and the user context
    change, callbacks may register handlers and close other connections, and `Poll` may close
    this one. -/
def afterServed (s : ServerState σ) (e : ClientEvent σ) (conn : Connection σ) (r : Served σ) :
    ServerState σ :=
  let called := r.effects.any Effect.isCallback
  let s :=
    { s.setConn e.id conn with
      requestHandlers :=
        if called then registerRequestHandlers s.requestHandlers e.registers
        else s.requestHandlers
      user := r.user
      log := s.log ++ r.effects.map fun effect => (e.id, effect) }
  let s := if called then s.closeConns e.closes else s
  if r.conn.isNone then (s.closeConn e.id e.del).2 else s

/-- `Poll` on an event of a client. -/
def pollClient (pingPong : Bool) (s : ServerState σ) (e : ClientEvent σ) :
    Except (PollExit σ) (ServerState σ) :=
  match s.client? e.id with
  | none => .error (.dangling e.id)
  | some c =>
    if e.epollin then
      match pollEvent regexMatch pingPong s.requestHandlers c.conn e.socket s.user with
      | some (.served r _) =>
        .ok (afterServed s e
          (connAfter regexMatch pingPong s.requestHandlers c.conn e.socket s.user) r)
      | _ => .error .down
    else .ok s -- only log lines

/-- One round of the loop. -/
def pollOne (pingPong : Bool) (s : ServerState σ) :
    PollEvent σ → Except (PollExit σ) (ServerState σ)
  | .server answer => pollServer s answer
  | .client e => pollClient regexMatch pingPong s e

/-- `Poll`, with the events that `epoll_wait(2)` gives; `none` if it fails. -/
def poll (pingPong : Bool) (s : ServerState σ) (events : Option (List (PollEvent σ))) :
    PollExit σ :=
  match events with
  | none => .returned (-1) s
  | some events =>
    match events.foldlM (pollOne regexMatch pingPong) s with
    | .ok s => .returned events.length s
    | .error exit => exit

/-- A call of the user on the server. -/
inductive Call (σ : Type) where
  | registerRequestHandler (uri : Bytes) (handler : RequestHandler σ)
  | poll (events : Option (List (PollEvent σ)))
  | closeConn (id : Nat) (del : Bool)

/-- One call. There is no next state when `Poll` does not return. -/
def step (pingPong : Bool) (s : ServerState σ) : Call σ → Option (ServerState σ)
  | .registerRequestHandler uri handler => some (s.registerRequestHandler uri handler)
  | .poll events =>
    match poll regexMatch pingPong s events with
    | .returned _ s => some s
    | _ => none
  | .closeConn id del => some (s.closeConn id del).2

end Server

end Httpoll.Native
