import Httpoll.Native.RequestLine

/-!
# `hpl_request_handler.h`

The frame types, and the callbacks that a user registers. A callback runs in a user
context of type `σ` and may change it; what it does to the connection that it is
called for is part of its reply.
-/

namespace Httpoll.Native

/-- `hpl::WsFrameType` -/
inductive WsFrameType where
  | kTypeContinuation | kTypeText | kTypeBinary | kTypeClose | kTypePing | kTypePong
  deriving Repr, DecidableEq

/-- The value of the enumerator, as it stands in the opcode field. -/
def WsFrameType.toOpcode : WsFrameType → Fin 16
  | kTypeContinuation => 0x0
  | kTypeText => 0x1
  | kTypeBinary => 0x2
  | kTypeClose => 0x8
  | kTypePing => 0x9
  | kTypePong => 0xa

/-- The reply of a request handler: its return value, and what it leaves in the
    `std::string &&partial` that it was given (nothing, when it moves it out). -/
structure HandlerReply (σ : Type) where
  ret : Int
  partialBody : Bytes
  user : σ

/-- `hpl::Handler`: called with the URI, the partial body and `is_final`. -/
abbrev Handler (σ : Type) := σ → Bytes → Bytes → Bool → HandlerReply σ

/-- `hpl::WsHook`: called with the URI. -/
abbrev WsHook (σ : Type) := σ → Bytes → Int × σ

/-- `hpl::WsHandler`: called with the opcode of the frame and the payload. -/
abbrev WsHandler (σ : Type) := σ → Fin 16 → Bytes → Int × σ

/-- `hpl::RequestHandler`; an empty `std::function` is `none`. -/
structure RequestHandler (σ : Type) where
  httpHandlers : Vector (Option (Handler σ)) HttpMethod.UNKNOWN.toNat := .replicate _ none
  wsConnectHook : Option (WsHook σ) := none
  wsReadyHook : Option (WsHook σ) := none
  wsWillCloseHook : Option (WsHook σ) := none
  wsMessageHandler : Option (WsHandler σ) := none

end Httpoll.Native
