import Httpoll.ForStd.Fifo
import Httpoll.Native.Socket
import Httpoll.Native.WebsocketUtils

/-!
# `BroadcastGroup`

The embedding of `hpl_broadcast_group.cc`. A pipe is a queue of bytes with the capacity that
the kernel gave it. The answers of the kernel to the calls that one `Broadcast` makes are an
argument of it. A connection is known by a number, and each has a socket of its own.
-/

namespace Httpoll.Native

/-- An entry of `connections_`: the pipe that `Join` made, and the connection. -/
structure Member where
  pipe : Fifo UInt8
  conn : Nat
  deriving DecidableEq

/-- `hpl::BroadcastGroup`, and what the sockets of the connections have accepted from it. -/
structure BroadcastGroup where
  /-- `pipefd_`; `none` when `pipe(2)` has failed. -/
  pipe : Option (Fifo UInt8)
  connections : List Member := []
  sockets : (conn : Nat) → Bytes := fun _ => []

/-- How the kernel answers the calls of one `Broadcast`. -/
structure Transfers where
  /-- The two `write(2)` calls to the shared pipe. -/
  header : WriteAnswer
  data : WriteAnswer
  /-- The most that the `tee(2)` or `splice(2)` into the pipe of member `i` moves; 0 if it
      fails. -/
  fill : (i : Nat) → Nat
  /-- The most that the `splice(2)` from that pipe to the socket moves; 0 if it fails. -/
  send : (i : Nat) → Nat

namespace BroadcastGroup

/-- `BroadcastGroup()`, with the capacity of the pipe that `pipe(2)` makes, if it makes one. -/
def new (capacity : Option Nat) : BroadcastGroup := { pipe := capacity.map Fifo.empty }

/-- `Join`, with the capacity of the pipe that `pipe(2)` makes, if it makes one. -/
def join (g : BroadcastGroup) (connection : Option Nat) (capacity : Option Nat) :
    Int × BroadcastGroup :=
  match connection with
  | none => (-1, g)
  | some conn =>
    match capacity with
    | none => (-1, g)
    | some capacity =>
      (0, { g with connections := g.connections ++ [{ pipe := .empty capacity, conn }] })

/-- `Leave` -/
def leave (g : BroadcastGroup) (connection : Nat) : Int × BroadcastGroup :=
  if g.connections.any (·.conn == connection) then
    (0, { g with connections := g.connections.eraseP (·.conn == connection) })
  else (-1, g)

/-! ## `Broadcast` -/

/-- The first loop and the `splice` after it: at most `total` bytes of the shared pipe go to
    the pipes of all members. -/
def fillMembers (total : Nat) (limit : Nat → Nat) (pipe : Fifo UInt8) (members : List Member) :
    List Member :=
  members.mapIdx fun i m => { m with pipe := m.pipe.offer (limit i) (pipe.items.take total) }

/-- How many bytes leave the shared pipe: `tee` leaves them there, and `splice` takes those
    out that it moves to the last member. -/
def drained (total : Nat) (limit : Nat → Nat) (pipe : Fifo UInt8) (members : List Member) : Nat :=
  match members.getLast? with
  | none => 0
  | some last => last.pipe.taken (limit (members.length - 1)) (pipe.items.take total)

/-- The last loop: at most `total` bytes go from the pipe of each member to its socket. -/
def sendMembers (total : Nat) (limit : Nat → Nat) :
    (i : Nat) → List Member → (Nat → Bytes) → List Member × (Nat → Bytes)
  | _, [], sockets => ([], sockets)
  | i, m :: ms, sockets =>
    let moved := min (limit i) (min total m.pipe.items.length)
    let sockets := Function.update sockets m.conn (sockets m.conn ++ m.pipe.items.take moved)
    let (ms, sockets) := sendMembers total limit (i + 1) ms sockets
    ({ m with pipe := m.pipe.pop moved } :: ms, sockets)

/-- What `Broadcast` does once the frame is in the shared pipe. No result is looked at. -/
def distribute (g : BroadcastGroup) (pipe : Fifo UInt8) (total : Nat) (k : Transfers) :
    BroadcastGroup :=
  let filled := fillMembers total k.fill pipe g.connections
  let pipe := pipe.pop (drained total k.fill pipe g.connections)
  let (connections, sockets) := sendMembers total k.send 0 filled g.sockets
  { pipe := some pipe, connections, sockets }

/-- `Broadcast` -/
def broadcast (g : BroadcastGroup) (data : Bytes) (msgType : WsFrameType) (k : Transfers) :
    Int × BroadcastGroup :=
  match g.pipe with
  | none => (-1, g)
  | some pipe =>
    if g.connections = [] then (0, g)
    else
      let header := makeWebsocketHeader data.length msgType
      match k.header with
      | .fail _ => (-1, g)
      | .accepts n =>
        let pipe := pipe.offer n header
        match k.data with
        | .fail _ => (-1, { g with pipe := some pipe })
        | .accepts n => (0, g.distribute (pipe.offer n data) (header.length + data.length) k)

end BroadcastGroup

/-- A call on a group, with the answers of the kernel to the calls that it makes. -/
inductive GroupCall where
  | join (connection : Option Nat) (capacity : Option Nat)
  | leave (connection : Nat)
  | broadcast (data : Bytes) (msgType : WsFrameType) (k : Transfers)

/-- One call on a group. -/
def BroadcastGroup.call (g : BroadcastGroup) : GroupCall → Int × BroadcastGroup
  | .join connection capacity => g.join connection capacity
  | .leave connection => g.leave connection
  | .broadcast data msgType k => g.broadcast data msgType k

/-- The group after some calls. -/
def BroadcastGroup.after (g : BroadcastGroup) (calls : List GroupCall) : BroadcastGroup :=
  calls.foldl (fun g call => (g.call call).2) g

end Httpoll.Native
