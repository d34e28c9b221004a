import Httpoll.Native.Poll

/-!
# `ServerPing`

`Server::Poll` with the time of the last input or output of each WebSocket connection, in the
build of `httpoll.mk` (`HPL_ENABLE_PING_PONG` defined as 10). A call of `Poll` first goes
through `pending_conns_` and pings the connections that have been idle for too long; then it
waits for events and serves them.

`std::chrono::steady_clock::now()` gives the ticks of a clock that is never set back. What
passes between two readings of it is up to the environment. Which connections the callbacks of
an event write to is up to the user.
-/

namespace Httpoll.Native

variable {σ : Type}

/-- `HPL_ENABLE_PING_PONG`, from `httpoll.mk`. -/
def HPL_ENABLE_PING_PONG : Nat := 10

/-- `std::chrono::seconds(n)`, in the ticks of the steady clock, which are nanoseconds. -/
def seconds (n : Nat) : Nat := n * 1000000000

/-- What the time of a WebSocket connection is set for. -/
inductive Mark where
  /-- The connection was upgraded, `Read` has got bytes, or `Write` was called. -/
  | io (id time : Nat)
  /-- The `Write` that `ServerPing` calls. -/
  | pingWrite (id time : Nat)
  /-- `ServerPing` has pinged, with the buffers that it hands to `write(2)`. -/
  | ping (id time : Nat) (buffers : List Bytes)
  deriving Repr, DecidableEq

namespace Mark

def id : Mark → Nat
  | io id _ => id
  | pingWrite id _ => id
  | ping id _ _ => id

def time : Mark → Nat
  | io _ time => time
  | pingWrite _ time => time
  | ping _ time _ => time

def isPing : Mark → Bool
  | io .. => false
  | pingWrite .. => false
  | ping .. => true

/-- The time stays until the next input or output. That of the `Write` in `ServerPing` does not:
    `ServerPing` sets it back. -/
def stays : Mark → Bool
  | io .. => true
  | pingWrite .. => false
  | ping .. => true

end Mark

/-- The server, and the time that it goes by. -/
structure TimedServer (σ : Type) where
  server : ServerState σ
  /-- The last reading of the clock. -/
  clock : Nat := 0
  /-- `last_io_time_` of the WebSocket connection with this number. -/
  lastIoTime : (id : Nat) → Nat := fun _ => 0
  /-- When the last call of `Poll` began. The code has no such field. -/
  lastPass : Nat := 0
  /-- What `last_io_time_` was set for. The code has no such log. -/
  marks : List Mark := []

namespace TimedServer

/-- A reading of the clock. -/
def now (t : TimedServer σ) (elapsed : Nat) : TimedServer σ := { t with clock := t.clock + elapsed }

/-- `last_io_time_ = std::chrono::steady_clock::now()` -/
def touch (t : TimedServer σ) (id elapsed : Nat) : TimedServer σ :=
  let t := t.now elapsed
  { t with
    lastIoTime := Function.update t.lastIoTime id t.clock
    marks := t.marks ++ [.io id t.clock] }

/-- The WebSocket connection at an address, with its connection. -/
def websocket? (t : TimedServer σ) (id : Nat) : Option (Connection σ × WebsocketConnection σ) :=
  (t.server.client? id).bind fun c => c.conn.wsConn.map fun ws => (c.conn, ws)

/-! ## `ServerPing` -/

/-- How much time passes in a call of `ServerPing`: before it reads the clock, and before the
    `Write` that it calls does. -/
structure PingDelays where
  first : Nat
  write : Nat
  deriving Repr, DecidableEq

/-- `ServerPing` -/
def serverPing (t : TimedServer σ) (id : Nat) (c : Connection σ) (d : PingDelays) :
    Bool × TimedServer σ :=
  let t := t.now d.first
  let now := t.clock
  if now - t.lastIoTime id > seconds HPL_ENABLE_PING_PONG then
    let buffers := WebsocketConnection.write c .kTypePing []
    -- `Write` sets `last_io_time_` to a later time, and then it is set back
    let t := t.now d.write
    let t : TimedServer σ := { t with
      lastIoTime := Function.update t.lastIoTime id t.clock
      marks := t.marks ++ [.pingWrite id t.clock] }
    (true, { t with
      lastIoTime := Function.update t.lastIoTime id now
      marks := t.marks ++ [.ping id now buffers] })
  else (false, t)

/-- One round of the loop at the beginning of `Poll`. -/
def pingOne (t : TimedServer σ) (c : Client σ) (d : PingDelays) : TimedServer σ :=
  if c.conn.wsConn.isSome then (t.serverPing c.id c.conn d).2 else t

/-- That loop. -/
def pingAll (t : TimedServer σ) (delays : Nat → PingDelays) : TimedServer σ :=
  t.server.pendingConns.foldl (fun t c => t.pingOne c (delays c.id)) t

end TimedServer

/-! ## Events -/

/-- An event, and the time that passes. -/
structure TimedEvent (σ : Type) where
  event : PollEvent σ
  /-- Before the clock is read in `Read`, or when a `WebsocketConnection` is made. -/
  elapsed : Nat := 0
  /-- Before it is read in the `Write` of a pong. -/
  pongElapsed : Nat := 0
  /-- The WebSocket connections that the callbacks of the event call `Write` for, if any
      callback is called, and the time before each of these calls. -/
  writes : List (Nat × Nat) := []

/-- A frame is written. -/
def Effect.isWrite : Effect → Bool
  | .write _ => true
  | _ => false

namespace Server

variable (regexMatch : (pattern text : Bytes) → Option Bool)

/-- `Read` of the WebSocket connection does not return before it reads the clock. -/
def readsClock (c : Connection σ) (s : Socket) : Bool :=
  match s.answers with
  | [] => false
  | answer :: _ => 0 ≤ (c.read (answer.read s.unread c.readLen).1).1

/-- `last_io_time_` of the connection itself is set in the event: in `Read`, or when the
    connection is upgraded. -/
def setsTime (s : ServerState σ) (e : ClientEvent σ) : Bool :=
  match s.client? e.id with
  | none => false
  | some c =>
    e.epollin &&
      if c.conn.wsConn.isSome then readsClock c.conn e.socket
      else (connAfter regexMatch true s.requestHandlers c.conn e.socket s.user).wsConn.isSome

/-- The `Write` calls that callbacks make. A connection that the event has closed has no time
    any more. -/
def writeAll (t : TimedServer σ) (writes : List (Nat × Nat)) : TimedServer σ :=
  writes.foldl (fun t write =>
    if (t.websocket? write.1).isSome then t.touch write.1 write.2 else t.now write.2) t

/-- The times after an event that has taken the server from `t.server` to `s`. -/
def timesAfter (t : TimedServer σ) (e : TimedEvent σ) (s : ServerState σ) : TimedServer σ :=
  match e.event with
  | .server _ => { t with server := s }
  | .client ce =>
    let effects := (s.log.drop t.server.log.length).map Prod.snd
    let sets := setsTime regexMatch t.server ce
    let t := { t with server := s }
    let t := if sets then t.touch ce.id e.elapsed else t.now e.elapsed
    let t := if effects.any Effect.isWrite then t.touch ce.id e.pongElapsed else t
    if effects.any Effect.isCallback then writeAll t e.writes else t

/-- One round of the loop over the events; the error is the server that `Poll` leaves, unless it
    does not return. -/
def pollOneTimed (t : TimedServer σ) (e : TimedEvent σ) :
    Except (Option (TimedServer σ)) (TimedServer σ) :=
  match pollOne regexMatch true t.server e.event with
  | .ok s => .ok (timesAfter regexMatch t e s)
  | .error (.returned _ s) => .error (some { t with server := s })
  | .error _ => .error none

end Server

/-- A call of `Poll`, and the time that passes: before it, in each call of `ServerPing`, and in
    `epoll_wait(2)`. -/
structure TimedPoll (σ : Type) where
  before : Nat := 0
  delays : (id : Nat) → TimedServer.PingDelays := fun _ => ⟨0, 0⟩
  waited : Nat := 0
  events : Option (List (TimedEvent σ))

/-- A call of the user on the server or on a WebSocket connection of it. -/
inductive TimedCall (σ : Type) where
  | registerRequestHandler (uri : Bytes) (handler : RequestHandler σ)
  | closeConn (id : Nat) (del : Bool)
  /-- `WebsocketConnection::Write` -/
  | write (id elapsed : Nat)
  | poll (p : TimedPoll σ)

namespace Server

variable (regexMatch : (pattern text : Bytes) → Option Bool)

/-- `Poll`; `none` when it does not return. -/
def pollTimed (t : TimedServer σ) (p : TimedPoll σ) : Option (TimedServer σ) :=
  let t := t.now p.before
  let t := { t with lastPass := t.clock }
  let t := (t.pingAll p.delays).now p.waited
  match p.events with
  | none => some t
  | some events =>
    match events.foldlM (pollOneTimed regexMatch) t with
    | .ok t => some t
    | .error t => t

/-- One call. There is no next state when `Poll` does not return. -/
def timedStep (t : TimedServer σ) : TimedCall σ → Option (TimedServer σ)
  | .registerRequestHandler uri handler =>
    some { t with server := t.server.registerRequestHandler uri handler }
  | .closeConn id del => some { t with server := (t.server.closeConn id del).2 }
  | .write id elapsed => some (writeAll t [(id, elapsed)])
  | .poll p => pollTimed regexMatch t p

end Server

end Httpoll.Native
