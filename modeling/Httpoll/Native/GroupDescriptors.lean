import Httpoll.ForStd.Ownership
import Httpoll.Native.BroadcastGroup

/-!
# The descriptors of `BroadcastGroup`

`hpl_broadcast_group.cc` again, with the descriptors of its pipes in the place of their
contents. `pipe(2)` gives two descriptors, or fails; `close(2)` of a descriptor that is not
open, and any other call on one, is a fault, but for the two calls of `fcntl(2)` with which the
constructor ends: when `pipe(2)` has failed they are made with -1, and fail. The sockets of the
connections are not the group's.
-/

namespace Httpoll.Native

open Ownership

/-- The descriptors of `hpl::BroadcastGroup`. -/
structure GroupDescriptors where
  /-- `pipefd_` -/
  pipefd : Int × Int := (-1, -1)
  /-- `connections_` -/
  connections : List ((Int × Int) × Nat) := []
  deriving Repr, DecidableEq

/-- A call on a group, with the two descriptors that `pipe(2)` gives in it, if it does. -/
structure DescriptorCall where
  call : GroupCall
  pipe : Option (Int × Int) := none
  /-- `conn_->GetDescriptor()` -/
  sockets : (conn : Nat) → Int := fun _ => -1

/-- `write(2)` does not fail. -/
def WriteAnswer.succeeds : WriteAnswer → Bool
  | .accepts _ => true
  | .fail _ => false

namespace GroupDescriptors

/-- `BroadcastGroup()`: the group, the descriptors that it calls `fcntl(2)` with, and those that
    are open then. `pipefd_` is left as it is when `pipe(2)` fails. -/
def new (inUse : List Int) (pipe : Option (Int × Int)) :
    GroupDescriptors × List Int × List Int :=
  match pipe with
  | none =>
    let g : GroupDescriptors := {}
    (g, [g.pipefd.1, g.pipefd.2], inUse)
  | some fds =>
    let g : GroupDescriptors := { pipefd := fds }
    (g, [g.pipefd.1, g.pipefd.2], [fds.1, fds.2] ++ inUse)

/-- `Join` -/
def join (g : GroupDescriptors) (inUse : List Int) (sockets : (conn : Nat) → Int)
    (connection : Option Nat) (pipe : Option (Int × Int)) :
    Option (Int × GroupDescriptors × List Int) :=
  match connection with
  | none => some (-1, g, inUse)
  | some conn => do
    -- `setsockopt`
    let inUse ← useAll inUse [sockets conn]
    match pipe with
    | none => return (-1, g, inUse)
    | some fds =>
      -- `fcntl`
      let inUse ← useAll ([fds.1, fds.2] ++ inUse) [fds.1, fds.2]
      return (0, { g with connections := g.connections ++ [(fds, conn)] }, inUse)

/-- `Leave` -/
def leave (g : GroupDescriptors) (inUse : List Int) (connection : Nat) :
    Option (Int × GroupDescriptors × List Int) :=
  match g.connections.find? (·.2 == connection) with
  | none => some (-1, g, inUse)
  | some entry => do
    let inUse ← releaseAll inUse [entry.1.1, entry.1.2]
    return (0, { g with connections := g.connections.eraseP (·.2 == connection) }, inUse)

/-- `Broadcast`: what it returns, and the descriptors that it calls `write(2)`, `tee(2)` and
    `splice(2)` with, in their order. `header` and `data` say whether the two writes succeed. -/
def broadcast (g : GroupDescriptors) (sockets : (conn : Nat) → Int) (header data : Bool) :
    Int × List Int :=
  if g.pipefd.1 = -1 ∨ g.pipefd.2 = -1 then (-1, [])
  else if g.connections = [] then (0, [])
  else if ¬ header then (-1, [g.pipefd.2])
  else if ¬ data then (-1, [g.pipefd.2, g.pipefd.2])
  else
    (0, [g.pipefd.2, g.pipefd.2] ++
      -- `tee` to all members but the last, and `splice` to the last
      g.connections.flatMap (fun entry => [g.pipefd.1, entry.1.2]) ++
      -- `splice` to the sockets
      g.connections.flatMap fun entry => [entry.1.1, sockets entry.2])

/-- The descriptors of the group, in the order in which the destructor closes them. -/
def owned (g : GroupDescriptors) : List Int :=
  (if g.pipefd.1 ≠ -1 then [g.pipefd.1] else []) ++
    (if g.pipefd.2 ≠ -1 then [g.pipefd.2] else []) ++
    g.connections.flatMap fun entry => [entry.1.1, entry.1.2]

/-- `~BroadcastGroup()` -/
def destroy (g : GroupDescriptors) (inUse : List Int) : Option (List Int) :=
  releaseAll inUse g.owned

/-- One call on a group: what it returns, the group, and the descriptors that are open. -/
def call (g : GroupDescriptors) (inUse : List Int) (c : DescriptorCall) :
    Option (Int × GroupDescriptors × List Int) :=
  match c.call with
  | .join connection _ => g.join inUse c.sockets connection c.pipe
  | .leave connection => g.leave inUse connection
  | .broadcast _ _ k => do
    let (ret, uses) := g.broadcast c.sockets k.header.succeeds k.data.succeeds
    let inUse ← useAll inUse uses
    return (ret, g, inUse)

/-- A call, without what it returns. -/
def step (g : GroupDescriptors) (inUse : List Int) (c : DescriptorCall) :
    Option (GroupDescriptors × List Int) :=
  (g.call inUse c).map Prod.snd

end GroupDescriptors

/-- `pipe(2)` gives two descriptors that are not open. -/
def PipePossible (inUse : List Int) (pipe : Option (Int × Int)) : Prop :=
  ∀ fds ∈ pipe, 0 ≤ fds.1 ∧ 0 ≤ fds.2 ∧ Fresh inUse [fds.1, fds.2]

instance (inUse : List Int) : DecidablePred (PipePossible inUse) := fun pipe =>
  inferInstanceAs (Decidable (∀ fds ∈ pipe, _))

/-- The call makes a pipe when `pipe(2)` succeeds in it. -/
def DescriptorCall.MakesPipe (c : DescriptorCall) : Prop :=
  match c.call with
  | .join _ capacity => c.pipe.isSome = capacity.isSome
  | .leave _ => True
  | .broadcast .. => True

instance : DecidablePred DescriptorCall.MakesPipe := fun c => by
  unfold DescriptorCall.MakesPipe
  split <;> infer_instance

/-- The sockets that the call may use. -/
def DescriptorCall.socketsOf (g : GroupDescriptors) (c : DescriptorCall) : List Int :=
  match c.call with
  | .join connection _ => connection.toList.map c.sockets
  | .leave _ => []
  | .broadcast .. => g.connections.map fun entry => c.sockets entry.2

/-- The kernel can answer the call so, and the connections that it uses are still open. -/
def DescriptorCall.Possible (g : GroupDescriptors) (inUse : List Int) (c : DescriptorCall) :
    Prop :=
  PipePossible inUse c.pipe ∧ c.MakesPipe ∧ ∀ fd ∈ c.socketsOf g, fd ∈ inUse

instance (g : GroupDescriptors) (inUse : List Int) :
    DecidablePred (DescriptorCall.Possible g inUse) := fun _ =>
  inferInstanceAs (Decidable (_ ∧ _ ∧ _))

end Httpoll.Native
