import Mathlib.Data.List.Basic
import Mathlib.Data.List.Induction
import Mathlib.Tactic.Ring
import Httpoll.ForStd.Base64

/-!
# RFC 6455 frames

The WebSocket protocol, for any implementation: the answer to the key of a client, frame
headers with the three length forms and the optional masking key, whole frames, and the
decoder that reads a header from the front of a byte string.

## Key results

- `beValue_beBytes`: big-endian numbers read back
- `applyMask_applyMask`: masking is an involution
- `decodeHeader_encodeHeader`: a header reads back, and nothing after it is consumed
- `decodeHeader_eq_some`: the bytes that a header was read from
- `decodeFrame_encode`: a whole frame reads back
- `reads_flatMap_encode`: so does a stream of frames
-/

namespace Rfc6455

/-! ## Big-endian numbers -/

/-- The number that big-endian bytes spell. -/
def beValue (bytes : List UInt8) : Nat := bytes.foldl (fun acc b => acc * 256 + b.toNat) 0

/-- The low `k` bytes of a number, most significant first. -/
def beBytes : Nat → Nat → List UInt8
  | 0, _ => []
  | k + 1, n => beBytes k (n / 256) ++ [UInt8.ofNat (n % 256)]

@[simp] theorem length_beBytes (k n : Nat) : (beBytes k n).length = k := by
  induction k generalizing n with
  | zero => rfl
  | succ k ih => rw [beBytes, List.length_append, ih]; rfl

theorem beValue_append_singleton (bytes : List UInt8) (b : UInt8) :
    beValue (bytes ++ [b]) = beValue bytes * 256 + b.toNat := by
  simp [beValue, List.foldl_append]

/-- The first bytes are the high part of the number. -/
theorem beValue_append (xs ys : List UInt8) :
    beValue (xs ++ ys) = beValue xs * 256 ^ ys.length + beValue ys := by
  induction ys using List.reverseRecOn with
  | nil => simp [beValue]
  | append_singleton ys b ih =>
    rw [← List.append_assoc, beValue_append_singleton, beValue_append_singleton, ih,
      List.length_append, List.length_singleton, Nat.pow_succ]
    ring

theorem beValue_lt (bytes : List UInt8) : beValue bytes < 256 ^ bytes.length := by
  induction bytes using List.reverseRecOn with
  | nil => exact Nat.one_pos
  | append_singleton bytes b ih =>
    have hb := b.toNat_lt
    rw [beValue_append_singleton, List.length_append, List.length_singleton, Nat.pow_succ]
    omega

/-- A number that fits the field reads back. -/
theorem beValue_beBytes {k n : Nat} (h : n < 256 ^ k) : beValue (beBytes k n) = n := by
  induction k generalizing n with
  | zero =>
    rw [Nat.pow_zero, Nat.lt_one_iff] at h
    subst h; rfl
  | succ k ih =>
    have hdiv : n / 256 < 256 ^ k := by
      rw [Nat.div_lt_iff_lt_mul (by decide), ← Nat.pow_succ]; exact h
    have hlow : (UInt8.ofNat (n % 256)).toNat = n % 256 := by simp
    rw [beBytes, beValue_append_singleton, ih hdiv, hlow]
    omega

/-! ## The opening handshake -/

/-- The GUID that a server appends to the key of a client. -/
def guid : List UInt8 := "258EAFA5-E914-47DA-95CA-C5AB0DC85B11".toList.map Char.toUInt8

/-- The value of the `Sec-WebSocket-Accept` header for a key, where `sha1` is the hash. -/
def accept (sha1 : List UInt8 → List UInt8) (key : List UInt8) : List UInt8 :=
  Base64.encode (sha1 (key ++ guid))

/-! ## Masking -/

/-- A masking key. -/
structure MaskKey where
  k0 : UInt8
  k1 : UInt8
  k2 : UInt8
  k3 : UInt8
  deriving DecidableEq, Repr

namespace MaskKey

/-- The key byte for the payload byte at index `i`. -/
def get (key : MaskKey) (i : Nat) : UInt8 :=
  match i % 4 with
  | 0 => key.k0
  | 1 => key.k1
  | 2 => key.k2
  | _ => key.k3

/-- The key as it is sent. -/
def toList (key : MaskKey) : List UInt8 := [key.k0, key.k1, key.k2, key.k3]

end MaskKey

/-- The payload as it is sent under a key, and also what the receiver makes of it. -/
def applyMask : Option MaskKey → List UInt8 → List UInt8
  | none, bytes => bytes
  | some key, bytes => bytes.mapIdx fun i b => b ^^^ key.get i

@[simp] theorem length_applyMask (mask : Option MaskKey) (bytes : List UInt8) :
    (applyMask mask bytes).length = bytes.length := by
  cases mask <;> simp [applyMask]

/-- Masking twice gives the bytes back. -/
@[simp] theorem applyMask_applyMask (mask : Option MaskKey) (bytes : List UInt8) :
    applyMask mask (applyMask mask bytes) = bytes := by
  cases mask with
  | none => rfl
  | some key =>
    apply List.ext_getElem
    · simp [applyMask]
    · intro i h₁ h₂
      simp only [applyMask, List.getElem_mapIdx, UInt8.xor_assoc, UInt8.xor_self, UInt8.xor_zero]

/-! ## Frame headers -/

/-- What a frame header says. -/
structure FrameHeader where
  fin : Bool
  rsv : Fin 8
  opcode : Fin 16
  mask : Option MaskKey
  payloadLength : Nat
  deriving DecidableEq, Repr

namespace FrameHeader

/-- FIN, RSV1-3 and opcode. -/
def firstByte (h : FrameHeader) : UInt8 :=
  UInt8.ofNat ((if h.fin then 128 else 0) + h.rsv.val * 16 + h.opcode.val)

/-- The MASK bit, as the high bit of the second byte. -/
def maskBit (h : FrameHeader) : Nat := if h.mask.isSome then 128 else 0

/-- MASK, payload length and extended payload length, in the shortest form. -/
def lengthBytes (h : FrameHeader) : List UInt8 :=
  if h.payloadLength < 126 then [UInt8.ofNat (h.maskBit + h.payloadLength)]
  else if h.payloadLength < 2 ^ 16 then
    UInt8.ofNat (h.maskBit + 126) :: beBytes 2 h.payloadLength
  else UInt8.ofNat (h.maskBit + 127) :: beBytes 8 h.payloadLength

/-- The masking key, when there is one. -/
def maskBytes (h : FrameHeader) : List UInt8 := (h.mask.map MaskKey.toList).getD []

end FrameHeader

/-- The header as it is sent. -/
def encodeHeader (h : FrameHeader) : List UInt8 := h.firstByte :: h.lengthBytes ++ h.maskBytes

/-- Read a `k`-byte big-endian number from the front. -/
def takeNat (k : Nat) (bytes : List UInt8) : Option (Nat × List UInt8) :=
  if k ≤ bytes.length then some (beValue (bytes.take k), bytes.drop k) else none

/-- Read the payload length, given the 7-bit length field. -/
def takeLength (len7 : Nat) (bytes : List UInt8) : Option (Nat × List UInt8) :=
  if len7 = 126 then takeNat 2 bytes
  else if len7 = 127 then takeNat 8 bytes
  else some (len7, bytes)

/-- Read the masking key, given the MASK bit. -/
def takeMask (masked : Bool) (bytes : List UInt8) : Option (Option MaskKey × List UInt8) :=
  if masked then
    match bytes with
    | k0 :: k1 :: k2 :: k3 :: rest => some (some ⟨k0, k1, k2, k3⟩, rest)
    | _ => none
  else some (none, bytes)

/-- Read a frame header from the front of a byte string; `none` when it is incomplete. -/
def decodeHeader : List UInt8 → Option (FrameHeader × List UInt8)
  | b0 :: b1 :: bytes => do
    let (payloadLength, bytes) ← takeLength (b1.toNat % 128) bytes
    let (mask, rest) ← takeMask (128 ≤ b1.toNat) bytes
    some ({ fin := 128 ≤ b0.toNat
            rsv := ⟨b0.toNat / 16 % 8, Nat.mod_lt _ (by decide)⟩
            opcode := ⟨b0.toNat % 16, Nat.mod_lt _ (by decide)⟩
            mask, payloadLength }, rest)
  | _ => none

/-! ## Headers read back -/

theorem takeNat_append {k n : Nat} (h : n < 256 ^ k) (rest : List UInt8) :
    takeNat k (beBytes k n ++ rest) = some (n, rest) := by
  have htake : (beBytes k n ++ rest).take k = beBytes k n :=
    List.take_left' (length_beBytes k n)
  have hdrop : (beBytes k n ++ rest).drop k = rest := List.drop_left' (length_beBytes k n)
  have hlen : k ≤ (beBytes k n ++ rest).length := by simp
  rw [takeNat, if_pos hlen, htake, hdrop, beValue_beBytes h]

/-- The bits of the first byte read back. -/
theorem toNat_firstByte (h : FrameHeader) :
    h.firstByte.toNat = (if h.fin then 128 else 0) + h.rsv.val * 16 + h.opcode.val := by
  have hr := h.rsv.isLt
  have ho := h.opcode.isLt
  unfold FrameHeader.firstByte
  rw [UInt8.toNat_ofNat', Nat.mod_eq_of_lt]
  split <;> omega

theorem firstByte_fin (h : FrameHeader) : decide (128 ≤ h.firstByte.toNat) = h.fin := by
  have hr := h.rsv.isLt
  have ho := h.opcode.isLt
  rw [toNat_firstByte]
  cases h.fin <;> simp <;> omega

theorem firstByte_opcode (h : FrameHeader) : h.firstByte.toNat % 16 = h.opcode.val := by
  have hr := h.rsv.isLt
  have ho := h.opcode.isLt
  rw [toNat_firstByte]
  split <;> omega

/-- The second byte, of which the high bit is the MASK bit. -/
theorem toNat_maskBit_add (h : FrameHeader) {len7 : Nat} (hlen : len7 < 128) :
    (UInt8.ofNat (h.maskBit + len7)).toNat = h.maskBit + len7 := by
  have hm : h.maskBit = 0 ∨ h.maskBit = 128 := by unfold FrameHeader.maskBit; split <;> simp
  rw [UInt8.toNat_ofNat', Nat.mod_eq_of_lt]
  omega

/-- The second byte and the extended length read back. -/
private theorem takeLength_lengthBytes (h : FrameHeader) (hlen : h.payloadLength < 2 ^ 64)
    (rest : List UInt8) :
    ∃ (b1 : UInt8) (ext : List UInt8), h.lengthBytes = b1 :: ext ∧
      takeLength (b1.toNat % 128) (ext ++ rest) = some (h.payloadLength, rest) ∧
      (128 ≤ b1.toNat ↔ h.mask.isSome) := by
  have hm : h.maskBit = 0 ∧ h.mask.isSome = false ∨ h.maskBit = 128 ∧ h.mask.isSome = true := by
    unfold FrameHeader.maskBit
    cases h.mask.isSome <;> simp
  unfold FrameHeader.lengthBytes
  split
  -- below 126 the length is in the second byte itself
  · rename_i hshort
    refine ⟨_, [], rfl, ?_, ?_⟩
    · have hval : (h.maskBit + h.payloadLength) % 128 = h.payloadLength := by omega
      rw [toNat_maskBit_add h (by omega), hval]
      have h126 : ¬ h.payloadLength = 126 := by omega
      have h127 : ¬ h.payloadLength = 127 := by omega
      simp only [takeLength, h126, h127, if_false, List.nil_append]
    · rw [toNat_maskBit_add h (by omega)]
      rcases hm with ⟨hb, hs⟩ | ⟨hb, hs⟩
      · simp [hb, hs]; omega
      · simp [hb, hs]
  · split
    -- 126 stands for two more bytes, and 127 for eight
    · rename_i hmid
      refine ⟨_, _, rfl, ?_, ?_⟩
      · have hval : (h.maskBit + 126) % 128 = 126 := by omega
        rw [toNat_maskBit_add h (by omega), hval]
        exact takeNat_append (k := 2) (by omega) rest
      · rw [toNat_maskBit_add h (by omega)]
        rcases hm with ⟨hb, hs⟩ | ⟨hb, hs⟩ <;> simp [hb, hs]
    · refine ⟨_, _, rfl, ?_, ?_⟩
      · have hval : (h.maskBit + 127) % 128 = 127 := by omega
        rw [toNat_maskBit_add h (by omega), hval]
        exact takeNat_append (k := 8) (by omega) rest
      · rw [toNat_maskBit_add h (by omega)]
        rcases hm with ⟨hb, hs⟩ | ⟨hb, hs⟩ <;> simp [hb, hs]

private theorem takeMask_maskBytes (h : FrameHeader) (rest : List UInt8) :
    takeMask h.mask.isSome (h.maskBytes ++ rest) = some (h.mask, rest) := by
  unfold takeMask FrameHeader.maskBytes
  cases h.mask <;> rfl

/-- **A frame header reads back**, and what follows it is left alone. -/
theorem decodeHeader_encodeHeader (h : FrameHeader) (hlen : h.payloadLength < 2 ^ 64)
    (rest : List UInt8) : decodeHeader (encodeHeader h ++ rest) = some (h, rest) := by
  obtain ⟨b1, ext, hbytes, hlength, hmasked⟩ :=
    takeLength_lengthBytes h hlen (h.maskBytes ++ rest)
  have hr := h.rsv.isLt
  have ho := h.opcode.isLt
  have hrsv : h.firstByte.toNat / 16 % 8 = h.rsv.val := by
    rw [toNat_firstByte]; split <;> omega
  have hmask : decide (128 ≤ b1.toNat) = h.mask.isSome := by
    rw [Bool.eq_iff_iff, decide_eq_true_iff]; exact hmasked
  simp only [encodeHeader, hbytes, List.cons_append, List.append_assoc, decodeHeader, hlength,
    bind, Option.bind, hmask, takeMask_maskBytes, firstByte_fin, hrsv, firstByte_opcode]

/-! ## What a decoder has read -/

theorem takeNat_eq_some {k n : Nat} {bytes rest : List UInt8}
    (h : takeNat k bytes = some (n, rest)) :
    k ≤ bytes.length ∧ n = beValue (bytes.take k) ∧ bytes = bytes.take k ++ rest := by
  unfold takeNat at h
  split at h
  · rename_i hle
    simp only [Option.some.injEq, Prod.mk.injEq] at h
    obtain ⟨rfl, rfl⟩ := h
    exact ⟨hle, rfl, (List.take_append_drop k bytes).symm⟩
  · cases h

theorem takeMask_eq_some {masked : Bool} {mask : Option MaskKey} {bytes rest : List UInt8}
    (h : takeMask masked bytes = some (mask, rest)) :
    mask.isSome = masked ∧ bytes = (mask.map MaskKey.toList).getD [] ++ rest := by
  unfold takeMask at h
  cases masked with
  | false =>
    simp only [Bool.false_eq_true, if_false, Option.some.injEq, Prod.mk.injEq] at h
    obtain ⟨rfl, rfl⟩ := h
    exact ⟨rfl, rfl⟩
  | true =>
    simp only [if_true] at h
    split at h
    · simp only [Option.some.injEq, Prod.mk.injEq] at h
      obtain ⟨rfl, rfl⟩ := h
      exact ⟨rfl, rfl⟩
    · cases h

/-- The two bytes at the front of a header that was read, and what comes after them. -/
theorem decodeHeader_eq_some {bytes rest : List UInt8} {h : FrameHeader}
    (hdec : decodeHeader bytes = some (h, rest)) :
    ∃ b0 b1 tail ext, bytes = b0 :: b1 :: tail ∧
      takeLength (b1.toNat % 128) tail = some (h.payloadLength, ext) ∧
      takeMask (128 ≤ b1.toNat) ext = some (h.mask, rest) ∧
      h.fin = decide (128 ≤ b0.toNat) ∧ h.opcode.val = b0.toNat % 16 := by
  unfold decodeHeader at hdec
  split at hdec
  · rename_i b0 b1 tail
    obtain ⟨⟨n, ext⟩, hlength, hdec⟩ := Option.bind_eq_some_iff.mp hdec
    obtain ⟨⟨mask, rest'⟩, hmask, hdec⟩ := Option.bind_eq_some_iff.mp hdec
    simp only [Option.some.injEq, Prod.mk.injEq] at hdec
    obtain ⟨rfl, rfl⟩ := hdec
    exact ⟨b0, b1, tail, ext, rfl, hlength, hmask, rfl, rfl⟩
  · cases hdec

/-! ## Frames -/

/-- A frame: its header fields and its payload before masking. -/
structure Frame where
  fin : Bool
  rsv : Fin 8
  opcode : Fin 16
  mask : Option MaskKey
  payload : List UInt8
  deriving DecidableEq, Repr

namespace Frame

/-- The header of the frame. -/
def header (f : Frame) : FrameHeader :=
  { fin := f.fin, rsv := f.rsv, opcode := f.opcode, mask := f.mask,
    payloadLength := f.payload.length }

/-- The frame as it is sent. -/
def encode (f : Frame) : List UInt8 := encodeHeader f.header ++ applyMask f.mask f.payload

theorem encode_pos (f : Frame) : 0 < f.encode.length := by
  rw [encode, encodeHeader, List.cons_append, List.cons_append, List.length_cons]
  exact Nat.succ_pos _

theorem length_payload_le (f : Frame) : f.payload.length ≤ f.encode.length := by
  rw [encode, List.length_append, length_applyMask]
  exact Nat.le_add_left _ _

end Frame

/-- Read a frame from the front of a byte string; `none` when it is incomplete. -/
def decodeFrame (bytes : List UInt8) : Option (Frame × List UInt8) := do
  let (h, rest) ← decodeHeader bytes
  if h.payloadLength ≤ rest.length then
    some ({ fin := h.fin, rsv := h.rsv, opcode := h.opcode, mask := h.mask,
            payload := applyMask h.mask (rest.take h.payloadLength) },
      rest.drop h.payloadLength)
  else none

/-- **A frame reads back**, and what follows it is left alone. -/
theorem decodeFrame_encode (f : Frame) (hlen : f.payload.length < 2 ^ 64) (rest : List UInt8) :
    decodeFrame (f.encode ++ rest) = some (f, rest) := by
  have hheader : decodeHeader (f.encode ++ rest) =
      some (f.header, applyMask f.mask f.payload ++ rest) := by
    rw [Frame.encode, List.append_assoc]
    exact decodeHeader_encodeHeader f.header hlen _
  have hbody : f.header.payloadLength = (applyMask f.mask f.payload).length :=
    (length_applyMask f.mask f.payload).symm
  rw [decodeFrame, hheader, Option.bind_eq_bind, Option.bind_some]
  dsimp only
  rw [hbody, List.take_left, List.drop_left,
    if_pos (by rw [List.length_append]; exact Nat.le_add_right _ _)]
  exact congrArg (fun payload => some ({ f with payload }, rest))
    (applyMask_applyMask f.mask f.payload)

/-- The stream is read as these frames, one after the other. -/
def Reads : List UInt8 → List Frame → Prop
  | bytes, [] => bytes = []
  | bytes, f :: fs => ∃ rest, decodeFrame bytes = some (f, rest) ∧ Reads rest fs

/-- **A stream of frames reads back.** -/
theorem reads_flatMap_encode {fs : List Frame} (h : ∀ f ∈ fs, f.payload.length < 2 ^ 64) :
    Reads (fs.flatMap Frame.encode) fs := by
  induction fs with
  | nil => rfl
  | cons f fs ih =>
    rw [List.flatMap_cons]
    exact ⟨_, decodeFrame_encode f (h f List.mem_cons_self) _,
      ih fun g hg => h g (List.mem_cons_of_mem f hg)⟩

end Rfc6455
