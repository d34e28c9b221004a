import Httpoll.Native.GroupDescriptors
import Httpoll.Native.Poll

/-!
# The broadcast example

The embedding of `examples/broadcast/broadcast.cc`: a server whose connect hook takes every
WebSocket connection into a group, and a loop that polls the server and broadcasts from time to
time. Nothing but the hook touches the group while the server is polled, so the calls of `Join`
are made when `Poll` has returned, in the order of the log. The pipe that `pipe(2)` makes in the
`Join` of a connection, if it makes one, is an argument.
-/

namespace Httpoll.Native

/-- The members whose connection `Broadcast` dereferences. -/
def BroadcastGroup.dereferenced (g : BroadcastGroup) (k : Transfers) : List Nat :=
  if g.pipe.isSome ∧ k.header.succeeds ∧ k.data.succeeds then g.connections.map Member.conn
  else []

/-- `BroadcastContext`, with the server of `main`. -/
structure BroadcastContext where
  server : ServerState Unit
  bg : BroadcastGroup

namespace BroadcastContext

/-- `handlers`. The hook returns 0; its `Join` is in `onWsConnected`. -/
def handlers : RequestHandler Unit := { wsConnectHook := some fun _ _ => (0, ()) }

/-- `OnWsConnected`: what it does to the group when an event has called it. -/
def onWsConnected (pipes : Nat → Option Nat) (bg : BroadcastGroup) (entry : Nat × Effect) :
    BroadcastGroup :=
  match entry.2 with
  | .wsConnectHook _ => (bg.join (some entry.1) (pipes entry.1)).2
  | _ => bg

variable (regexMatch : (pattern text : Bytes) → Option Bool) (pingPong : Bool)
  (pipes : Nat → Option Nat)

/-- `server.Poll`; there is no next state when it does not return. -/
def poll (ctx : BroadcastContext) (events : Option (List (PollEvent Unit))) :
    Option BroadcastContext :=
  (Server.step regexMatch pingPong ctx.server (.poll events)).map fun server =>
    { server, bg := (server.log.drop ctx.server.log.length).foldl (onWsConnected pipes) ctx.bg }

/-- `Broadcast`; there is no next state when it dereferences a connection that was freed. -/
def broadcast (ctx : BroadcastContext) (data : Bytes) (k : Transfers) : Option BroadcastContext :=
  if ∀ conn ∈ ctx.bg.dereferenced k, (ctx.server.client? conn).isSome then
    some { ctx with bg := (ctx.bg.broadcast data .kTypeText k).2 }
  else none

/-- What happens in one round of the loop of `main`. -/
structure MainRound where
  events : Option (List (PollEvent Unit))
  /-- `OnWsConnected` closes no connection and registers no handler. -/
  quiet : ∀ es ∈ events, ∀ e ∈ es, e.closes = [] ∧ e.registers = []
  /-- The answers of the kernel to `Broadcast`, when ten seconds have passed. -/
  broadcast : Option Transfers

/-- One round of the loop of `main`. -/
def mainRound (ctx : BroadcastContext) (r : MainRound) : Option BroadcastContext := do
  let ctx ← ctx.poll regexMatch pingPong pipes r.events
  match r.broadcast with
  | none => return ctx
  | some k => ctx.broadcast (ascii "hello world at ") k

/-- The handler that `main` registers. -/
def registered : Server.Call Unit := .registerRequestHandler (ascii "/broadcast") handlers

/-- `main` before its loop, with the capacity of the pipe of the group. -/
def start (capacity : Option Nat) : BroadcastContext where
  server := ({ user := () } : ServerState Unit).registerRequestHandler (ascii "/broadcast") handlers
  bg := .new capacity

end BroadcastContext

end Httpoll.Native
