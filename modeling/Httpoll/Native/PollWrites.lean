import Httpoll.Native.Response
import Httpoll.Native.Server

/-!
# What `Poll` writes

The bytes that an event of `Server::Poll` hands to `write(2)` for its connection: the responses,
and the pongs. What the callbacks write is theirs.
-/

namespace Httpoll.Native

open WebsocketConnection

/-- The headers of `switch_protocol_rsp`, in the order of the map. -/
def switchProtocolHeaders (wsAccept : Bytes) : ResponseHeaders where
  entries :=
    [(ascii "Connection", ascii "Upgrade"), (ascii "Sec-WebSocket-Accept", wsAccept),
      (ascii "Upgrade", ascii "websocket")]
  sorted := by
    show [ascii "Connection", ascii "Sec-WebSocket-Accept", ascii "Upgrade"].Pairwise (· < ·)
    decide

/-- What is handed to `write(2)`; `none` when the server goes down on the way. `GetWsAccept`
    keeps what `GetWsAcceptByKey` returns, of a key that never changes. -/
def Effect.bytes (sha1 : Bytes → Vector UInt8 SHA_DIGEST_LENGTH)
    (hash : Vector UInt8 (SHA_DIGEST_LENGTH * 2)) : Effect → Option Bytes
  | .respond code version => makeResponse code version .empty []
  | .switchProtocols version wsKey =>
    match getWsAcceptByKey sha1 hash wsKey with
    | some (.ok wsAccept) => makeResponse 101 version (switchProtocolHeaders wsAccept) []
    | _ => none
  | .write data => some data
  | _ => some []

/-- What has been handed to `write(2)` after one more effect. -/
def pollWrite (sha1 : Bytes → Vector UInt8 SHA_DIGEST_LENGTH)
    (hash : Vector UInt8 (SHA_DIGEST_LENGTH * 2)) (sent : Bytes) (effect : Effect) :
    Option Bytes :=
  (effect.bytes sha1 hash).map (sent ++ ·)

end Httpoll.Native
