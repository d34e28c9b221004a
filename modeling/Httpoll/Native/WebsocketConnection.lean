import Httpoll.ForStd.CheckedBuffer
import Httpoll.Native.Connection
import Httpoll.Native.ExternalHelpers
import Httpoll.Native.WebsocketUtils

/-!
# `WebsocketConnection`

The embedding of `hpl_websocket_connection.cc`. `GetWsAcceptByKey` takes the hash function of
the crypto library as a parameter. `Read` takes all of `buffer_` for one frame; every access to
that buffer is checked, and an access outside of it ends the run with the fault.

`pingPong` says whether `HPL_ENABLE_PING_PONG` is defined. The time of the last input or
output is left out.
-/

namespace Httpoll.Native

open CheckedBuffer

/-! ## Integers in a buffer -/

/-- An integer loaded on a little-endian machine. -/
def leValue : Bytes → Nat
  | [] => 0
  | b :: rest => b.toNat + 256 * leValue rest

/-- `ntohs` -/
def ntohs (v : Nat) : Nat := v % 256 * 256 + v / 256 % 256

/-- `ntohl`, whose argument is converted to 32 bits. -/
def ntohl (v : Nat) : Nat :=
  v % 256 * 2 ^ 24 + v / 2 ^ 8 % 256 * 2 ^ 16 + v / 2 ^ 16 % 256 * 2 ^ 8 + v / 2 ^ 24 % 256

namespace WebsocketConnection

/-! ## `GetWsAcceptByKey` -/

def SHA_DIGEST_LENGTH : Nat := 20

/-- What is appended to the key. -/
def acceptSuffix : Bytes := ascii "258EAFA5-E914-47DA-95CA-C5AB0DC85B11"

/-- `GetWsAcceptByKey`, with the memory that `hash` holds before. The log line is left out. -/
def getWsAcceptByKey (sha1 : Bytes → Vector UInt8 SHA_DIGEST_LENGTH)
    (hash : Vector UInt8 (SHA_DIGEST_LENGTH * 2)) (wsSecKey : Bytes) :
    Option (Except Fault Bytes) :=
  let tmp := wsSecKey ++ acceptSuffix
  let hashLen := SHA_DIGEST_LENGTH * 2
  match base64Encode (sha1 tmp).toList hash.toList (some hashLen) with
  | none => none
  | some (.error f) => some (.error f)
  -- whether it is -1 that was returned is not looked at
  | some (.ok r) => some (load r.dst 0 (r.dstLen.getD hashLen - 1))

/-! ## One frame -/

/-- `payload_len` and `offset` after the extended length, for a given `payload_prefix`. -/
def payloadLength (buf : Bytes) (payloadPrefix : Nat) : Except Fault (Nat × Nat) :=
  if payloadPrefix = 126 then do
    let v ← load buf 2 2
    .ok (ntohs (leValue v), 4)
  else if payloadPrefix = 127 then do
    -- both loads are of eight bytes, the second at `offset + 4`
    let l ← load buf 2 8
    let h ← load buf 6 8
    .ok (ntohl (leValue h) <<< 32 ||| ntohl (leValue l), 10)
  else .ok (payloadPrefix, 2)

/-- The frame that `Read` makes out of the buffer. -/
structure RawFrame where
  fin : Bool
  opcode : Fin 16
  payload : Bytes
  deriving Repr, DecidableEq

/-- The payload at `offset`: the copy of the mask, the loop that unmasks in place, and the
    range that is handed to `append`, which has to be a valid one. -/
def readPayload (buf : Bytes) (masked : Bool) (offset payloadLen : Nat) : Except Fault Bytes :=
  if masked then do
    let mask ← load buf offset 4
    let offset := offset + 4
    let buf ← mapRange (fun i b => b ^^^ byteAt mask (i &&& 3)) offset payloadLen 0 buf
    load buf offset payloadLen
  else load buf offset payloadLen

/-- All accesses of `Read` to its local buffer, in their order. -/
def readFrame (buf : Bytes) : Except Fault RawFrame := do
  let header ← load buf 0 2
  let b0 := (byteAt header 0).toNat
  let b1 := (byteAt header 1).toNat
  let (payloadLen, offset) ← payloadLength buf (b1 % 128)
  let payload ← readPayload buf (128 ≤ b1) offset payloadLen
  .ok { fin := 128 ≤ b0, opcode := ⟨b0 % 16, Nat.mod_lt b0 (by decide)⟩, payload }

/-! ## `Read` -/

variable {σ : Type}

/-- The outcome of `Read`: what it returns, the connection and the user context, the call
    of `on_data_` that it makes, and the buffers that it hands to `write(2)`. -/
structure ReadOutcome (σ : Type) where
  ret : Int
  conn : Connection σ
  user : σ
  call : Option (Fin 16 × Bytes) := none
  writes : List Bytes := []

/-- `Write`: the buffers handed to `write(2)`. An invalid descriptor gets none. -/
def write (c : Connection σ) (type : WsFrameType) (data : Bytes) : List Bytes :=
  if c.fd = -1 then [] else [makeWebsocketHeader data.length type, data]

/-- `Write`, on the answers to its two `write(2)` calls: what it returns, and what the socket
    accepts. -/
def writeAnswered (c : Connection σ) (type : WsFrameType) (data : Bytes)
    (header payload : WriteAnswer) : Int × Bytes :=
  let (_, first) := c.write (makeWebsocketHeader data.length type) header
  let (_, second) := c.write data payload
  -- neither result is looked at
  (0, first ++ second)

/-- `Read` once the frame is in hand, with `ws` and `user` as they are before. -/
def handleFrame (pingPong : Bool) (ws : WebsocketConnection σ) (c : Connection σ) (user : σ)
    (frame : RawFrame) : ReadOutcome σ :=
  let lastPayload := ws.lastPayload ++ frame.payload
  let conn := { c with wsConn := some { ws with lastPayload } }
  let cleared := { c with wsConn := some { ws with lastPayload := [] } }
  if frame.opcode = WsFrameType.kTypeClose.toOpcode then { ret := -1, conn, user }
  else if pingPong ∧ frame.opcode = WsFrameType.kTypePing.toOpcode then
    { ret := 0, conn := cleared, user, writes := write c .kTypePong frame.payload }
  else if pingPong ∧ frame.opcode = WsFrameType.kTypePong.toOpcode then
    { ret := 0, conn := cleared, user }
  else if frame.fin then
    match ws.onData with
    | some onData =>
      let (ret, user) := onData user frame.opcode lastPayload
      { ret, conn := cleared, user, call := some (frame.opcode, lastPayload) }
    | none => { ret := 0, conn := cleared, user }
  else { ret := 1, conn, user }

/-- `Read`, on the result of its `read(2)`. -/
def read (pingPong : Bool) (ws : WebsocketConnection σ) (c : Connection σ) (r : ReadResult)
    (user : σ) : Except Fault (ReadOutcome σ) :=
  let (ret, c) := c.read r
  if ret < 0 then .ok { ret, conn := c, user }
  else do
    -- `buffer_` is moved into a local buffer
    let frame ← readFrame c.buffer
    .ok (handleFrame pingPong ws { c with buffer := [] } user frame)

end WebsocketConnection

end Httpoll.Native
