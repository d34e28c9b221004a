import Httpoll.Native.RequestHandler

/-!
# `hpl_websocket_utils.cc`

`MakeWebsocketHeader`, the one place where the server encodes a frame header.
-/

namespace Httpoll.Native

/-- `header[i] = (message_length >> shift) & 0xff` -/
def lengthByte (messageLength shift : Nat) : UInt8 :=
  UInt8.ofNat ((messageLength >>> shift) &&& 0xff)

/-- `MakeWebsocketHeader`: the first `header_size` bytes of the array that it returns,
    whose unassigned bytes are zero. -/
def makeWebsocketHeader (messageLength : Nat) (type : WsFrameType) : Bytes :=
  let first := UInt8.ofNat (0x80 ||| type.toOpcode.val)
  if messageLength < 126 then
    [first, UInt8.ofNat messageLength]
  else if messageLength < 0xffff then
    [first, 126, lengthByte messageLength 8, lengthByte messageLength 0]
  else
    -- `header_size = 6`, although only `header[0]` to `header[4]` are assigned
    [first, 127, lengthByte messageLength 56, lengthByte messageLength 48,
      lengthByte messageLength 40, 0]

theorem makeWebsocketHeader_ne_nil (messageLength : Nat) (type : WsFrameType) :
    makeWebsocketHeader messageLength type ≠ [] := by
  unfold makeWebsocketHeader
  split
  · exact List.cons_ne_nil _ _
  · split <;> exact List.cons_ne_nil _ _

/-- A message as one frame: the header that `MakeWebsocketHeader` makes, and the payload. -/
def wsFrame (data : Bytes) (type : WsFrameType) : Bytes :=
  makeWebsocketHeader data.length type ++ data

end Httpoll.Native
