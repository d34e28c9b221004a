import Httpoll.ForStd.CheckedBuffer
import Httpoll.ForStd.Loop
import Httpoll.Native.Str

/-!
# `base64_encode`

The embedding of `external_helpers.h`. The source and the destination are buffers with checked
access, and so is the table of the characters; an access outside of one ends the run with the
fault. The results are `none` when a loop does not end within the fuel that bounds it.
-/

namespace Httpoll.Native

open CheckedBuffer

/-- `b64` -/
def b64 : Bytes := ascii "ABCDEFGHIJKLMNOPQRSTUVWXYZabcdefghijklmnopqrstuvwxyz0123456789+/"

/-- `dst[j++] = c`, over `dst` and `j`. -/
def putChar (out : Bytes × Nat) (c : UInt8) : Except Fault (Bytes × Nat) := do
  let dst ← set out.1 out.2 c
  .ok (dst, out.2 + 1)

/-- `dst[j++] = b64[v]` -/
def putB64 (out : Bytes × Nat) (v : Nat) : Except Fault (Bytes × Nat) := do
  let c ← get b64 v
  putChar out c

/-- `(i >= src_len) ? 0 : src[i]` -/
def byteOrZero (src : Bytes) (i : Nat) : Except Fault UInt8 :=
  if i ≥ src.length then .ok 0 else get src i

/-- `if (i < src_len) { dst[j++] = b64[v]; }` -/
def putB64Before (src : Bytes) (i : Nat) (out : Bytes × Nat) (v : Nat) :
    Except Fault (Bytes × Nat) :=
  if i < src.length then putB64 out v else .ok out

/-- The body of the `for` loop, over `dst` and `j`. -/
def encodeGroup (src : Bytes) (i : Nat) (out : Bytes × Nat) : Except Fault (Bytes × Nat) := do
  let a ← get src i
  let b ← byteOrZero src (i + 1)
  let c ← byteOrZero src (i + 2)
  let out ← putB64 out (a.toNat >>> 2)
  let out ← putB64 out ((a.toNat &&& 3) <<< 4 ||| b.toNat >>> 4)
  let out ← putB64Before src (i + 1) out ((b.toNat &&& 15) <<< 2 ||| c.toNat >>> 6)
  putB64Before src (i + 2) out (c.toNat &&& 63)

/-- What a round of a loop that may end in a fault asks for. -/
def stepOf {σ ρ : Type} (next : Except Fault σ) : Option (Loop.Step σ (Except Fault ρ)) :=
  match next with
  | .ok s => some (.next s)
  | .error f => some (.done (.error f))

/-- One round of the `for` loop, over `i`, `dst` and `j`. -/
def encodeBody (src : Bytes) (s : Nat × Bytes × Nat) :
    Option (Loop.Step (Nat × Bytes × Nat) (Except Fault (Bytes × Nat))) :=
  let (i, out) := s
  if i < src.length then stepOf ((encodeGroup src i out).map fun out => (i + 3, out))
  else some (.done (.ok out))

/-- One round of the `while` loop that writes the pads. -/
def padBody (out : Bytes × Nat) :
    Option (Loop.Step (Bytes × Nat) (Except Fault (Bytes × Nat))) :=
  if out.2 % 4 ≠ 0 then stepOf (putChar out '='.toUInt8) else some (.done (.ok out))

/-- What `base64_encode` returns, and what is behind its two pointers afterwards. -/
structure Encoded where
  ret : Int
  dst : Bytes
  dstLen : Option Nat
  deriving Repr, DecidableEq

/-- `base64_encode(src, src.size(), dst, dst_len)`; `dst_len` may be null. It returns -1 when
    all is well. -/
def base64Encode (src dst : Bytes) (dstLen : Option Nat) : Option (Except Fault Encoded) :=
  -- the expected length includes a terminating 0
  let expectedLen := (src.length + 2) / 3 * 4 + 1
  if ∃ len ∈ dstLen, len < expectedLen then
    some do
      let dst ← if dstLen ≠ some 0 then set dst 0 0 else .ok dst
      .ok { ret := 0, dst, dstLen := some expectedLen }
  else
    match Loop.run (encodeBody src) (src.length + 1) (0, dst, 0) with
    | none => none
    | some (.error f) => some (.error f)
    | some (.ok out) =>
      match Loop.run padBody 4 out with
      | none => none
      | some (.error f) => some (.error f)
      | some (.ok out) =>
        some do
          let (dst, j) ← putChar out 0
          .ok { ret := -1, dst, dstLen := dstLen.map fun _ => j }

end Httpoll.Native
