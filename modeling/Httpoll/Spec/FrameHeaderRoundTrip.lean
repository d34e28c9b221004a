import Httpoll.ForStd.Rfc6455
import Httpoll.Native.WebsocketUtils

/-!
# `MakeWebsocketHeader` against RFC 6455

Below 65535 bytes the header that `MakeWebsocketHeader` produces is the header of
RFC 6455. From there on it announces an eight-byte length and sends four bytes of it,
so a decoder is left waiting for more.

## Key results

- `makeWebsocketHeader_eq_encodeHeader`: below 65535 it is the encoding of the RFC
- `makeWebsocketHeader_roundTrip_iff`: the header reads back exactly below 65535
-/

namespace Httpoll.Native

open Rfc6455

/-- The header that a message of this length and type is to carry. -/
def messageHeader (n : Nat) (type : WsFrameType) : FrameHeader :=
  { fin := true, rsv := 0, opcode := type.toOpcode, mask := none, payloadLength := n }

/-- The frame that is to carry a message. -/
def messageFrame (data : Bytes) (type : WsFrameType) : Frame :=
  { fin := true, rsv := 0, opcode := type.toOpcode, mask := none, payload := data }

private theorem firstByte_messageHeader (n : Nat) (type : WsFrameType) :
    (messageHeader n type).firstByte = UInt8.ofNat (0x80 ||| type.toOpcode.val) := by
  cases type <;> rfl

private theorem lengthByte_eq (n shift : Nat) :
    lengthByte n shift = UInt8.ofNat (n / 2 ^ shift % 256) := by
  rw [lengthByte, Nat.shiftRight_eq_div_pow, show (0xff : Nat) = 2 ^ 8 - 1 from rfl,
    Nat.and_two_pow_sub_one_eq_mod]

private theorem lengthBytes_short {n : Nat} (h : n < 126) (type : WsFrameType) :
    (messageHeader n type).lengthBytes = [UInt8.ofNat n] := by
  rw [FrameHeader.lengthBytes, if_pos (show (messageHeader n type).payloadLength < 126 from h)]
  simp [messageHeader, FrameHeader.maskBit]

private theorem lengthBytes_middle {n : Nat} (h126 : ¬ n < 126) (h : n < 2 ^ 16)
    (type : WsFrameType) : (messageHeader n type).lengthBytes = 126 :: beBytes 2 n := by
  rw [FrameHeader.lengthBytes, if_neg (show ¬ (messageHeader n type).payloadLength < 126 from h126),
    if_pos (show (messageHeader n type).payloadLength < 2 ^ 16 from h)]
  rfl

/-- The short and the middle form are those of the RFC. -/
theorem makeWebsocketHeader_eq_encodeHeader {n : Nat} (h : n < 0xffff) (type : WsFrameType) :
    makeWebsocketHeader n type = encodeHeader (messageHeader n type) := by
  have hmask : (messageHeader n type).maskBytes = [] := rfl
  rw [encodeHeader, firstByte_messageHeader, hmask, List.append_nil]
  by_cases h126 : n < 126
  · rw [lengthBytes_short h126, makeWebsocketHeader, if_pos h126]
  · rw [lengthBytes_middle h126 (by omega), makeWebsocketHeader, if_neg h126, if_pos h]
    simp [lengthByte_eq, beBytes]

/-- A message below 65535 bytes is sent as a frame of the RFC. -/
theorem wsFrame_eq_encode {data : Bytes} (h : data.length < 0xffff) (type : WsFrameType) :
    wsFrame data type = (messageFrame data type).encode := by
  rw [wsFrame, makeWebsocketHeader_eq_encodeHeader h]
  rfl

/-- A header that announces eight length bytes and holds four is incomplete. -/
private theorem decodeHeader_makeWebsocketHeader_long {n : Nat} (h : 0xffff ≤ n)
    (type : WsFrameType) : decodeHeader (makeWebsocketHeader n type) = none := by
  have h126 : ¬ n < 126 := by omega
  have hffff : ¬ n < 0xffff := by omega
  simp only [makeWebsocketHeader, h126, hffff, if_false, decodeHeader]
  rfl

/-- **Round trip of the frame header.** The header of a message reads back as a final,
    unmasked frame of the given type and length, with nothing left over, exactly when the
    message is shorter than 65535 bytes. -/
theorem makeWebsocketHeader_roundTrip_iff (n : Nat) (type : WsFrameType) :
    decodeHeader (makeWebsocketHeader n type) = some (messageHeader n type, []) ↔ n < 0xffff := by
  constructor
  · intro h
    by_contra hge
    rw [decodeHeader_makeWebsocketHeader_long (by omega)] at h
    exact absurd h (by simp)
  · intro h
    have hlen : (messageHeader n type).payloadLength < 2 ^ 64 := by
      dsimp only [messageHeader]; omega
    have hround := decodeHeader_encodeHeader (messageHeader n type) hlen []
    rwa [List.append_nil, ← makeWebsocketHeader_eq_encodeHeader h] at hround

/-- The header of a text message of 65535 bytes does not read back. -/
theorem makeWebsocketHeader_65535 :
    decodeHeader (makeWebsocketHeader 65535 .kTypeText) ≠
      some (messageHeader 65535 .kTypeText, []) := by
  decide

end Httpoll.Native
