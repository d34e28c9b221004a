import Mathlib.Data.Nat.PSub
import Httpoll.ForStd.Ownership
import Httpoll.Native.Str

/-!
# `CircularBuffer`

The embedding of `hpl_circular_buffer.h`. A pointer into `buffer_` is its offset, and the
memory that `malloc` returns is an argument: its contents are not determined. The sizes are
below `2 ^ 63`, or `malloc` fails, so no sum of two of them wraps.
-/

namespace Httpoll.Native

/-- `memcpy(dst + off, src, src.size())`, within `dst`. -/
def memcpy (dst : Bytes) (off : Nat) (src : Bytes) : Bytes :=
  dst.take off ++ src ++ dst.drop (off + src.length)

/-- `hpl::CircularBuffer` -/
structure CircularBuffer where
  size : Nat
  buffer : Bytes
  readPos : Nat := 0
  writePos : Nat := 0
  deriving Repr, DecidableEq

/-- `whence` of `ResetWritePos`, as in `fseek`. -/
inductive Whence where
  | SEEK_SET | SEEK_CUR | SEEK_END
  deriving Repr, DecidableEq

namespace CircularBuffer

/-- `CircularBuffer(size)`, with the memory that `malloc` returns. -/
def new (memory : Bytes) : CircularBuffer := { size := memory.length, buffer := memory }

/-- `Capacity` -/
def capacity (b : CircularBuffer) : Nat := b.size - 1

/-- `ContinuousWriteBuffer`: where to write, and how many bytes. -/
def continuousWriteBuffer (b : CircularBuffer) : Nat × Nat :=
  if b.writePos < b.readPos then (b.writePos, b.readPos - b.writePos - 1)
  else (b.writePos, b.size - b.writePos - (if b.readPos = 0 then 1 else 0))

/-- `Length` -/
def length (b : CircularBuffer) : Nat :=
  if b.writePos = b.readPos then 0
  else if b.writePos ≥ b.readPos then b.writePos - b.readPos
  else b.size - b.readPos + b.writePos

/-- `FreeSpace` -/
def freeSpace (b : CircularBuffer) : Nat := b.capacity - b.length

/-- `Extend(newSize)`, with the memory that `malloc` returns, or null. -/
def extend (b : CircularBuffer) (newSize : Nat) (memory : Option (Vector UInt8 newSize)) :
    Bool × CircularBuffer :=
  if newSize ≤ b.size then (false, b)
  else
    match memory with
    | none => (false, b)
    | some memory =>
      let dataLen := b.length
      let newBuffer :=
        if dataLen > 0 then
          if b.readPos < b.writePos then
            memcpy memory.toList 0 ((b.buffer.drop b.readPos).take dataLen)
          else
            memcpy (memcpy memory.toList 0 ((b.buffer.drop b.readPos).take (b.size - b.readPos)))
              (b.size - b.readPos) (b.buffer.take b.writePos)
        else memory.toList
      (true, { size := newSize, buffer := newBuffer, readPos := 0, writePos := dataLen })

/-- `ResetWritePos`: no wrap around. -/
def resetWritePos (b : CircularBuffer) (offset : Nat) : Whence → CircularBuffer
  | .SEEK_SET => { b with writePos := offset }
  | .SEEK_CUR => { b with writePos := b.writePos + offset }
  | .SEEK_END => { b with writePos := b.size - offset }

/-- The bytes that a `ReadView` of `len` bytes at `pos` shows. -/
def view (b : CircularBuffer) (pos len : Nat) : Bytes := (b.buffer.drop pos).take len

/-- `GetReadViews`: the bytes of the two views. -/
def getReadViews (b : CircularBuffer) : Bytes × Bytes :=
  if b.writePos < b.readPos then
    (b.view b.readPos (b.size - b.readPos), b.view 0 b.writePos)
  else (b.view b.readPos (b.writePos - b.readPos), [])

/-- `Popout` -/
def popout (b : CircularBuffer) (len : Nat) : Nat × CircularBuffer :=
  if len > b.length then (0, b)
  else (len, { b with readPos := (b.readPos + len) % b.size })

/-! ## Unsigned subtractions

The functions again, with no result where a subtraction of `size_t` values wraps around. -/

/-- `ContinuousWriteBuffer`, with its subtractions checked. -/
def checkedContinuousWriteBuffer (b : CircularBuffer) : Option (Nat × Nat) :=
  if b.writePos < b.readPos then do
    let gap ← b.readPos.psub b.writePos
    let len ← gap.psub 1
    return (b.writePos, len)
  else do
    let rest ← b.size.psub b.writePos
    let len ← rest.psub (if b.readPos = 0 then 1 else 0)
    return (b.writePos, len)

/-- `Length`, with its subtractions checked. -/
def checkedLength (b : CircularBuffer) : Option Nat :=
  if b.writePos = b.readPos then some 0
  else if b.writePos ≥ b.readPos then b.writePos.psub b.readPos
  else do
    let first ← b.size.psub b.readPos
    return first + b.writePos

/-- `FreeSpace`, with its subtractions checked. -/
def checkedFreeSpace (b : CircularBuffer) : Option Nat := do
  let capacity ← b.size.psub 1
  let length ← b.checkedLength
  capacity.psub length

end CircularBuffer

/-! ## Construction, moves and destruction

A block of memory that `malloc` has returned is known by a number, and `inUse` are those that
were not freed. -/

/-- What `malloc(size)` returns: null, or a block and what is in it. -/
abbrev Malloc (size : Nat) := Option (Nat × Vector UInt8 size)

/-- `free` of a pointer that may be null. To free a block that is not in use is a fault. -/
def free (inUse : List Nat) (block : Option Nat) : Option (List Nat) :=
  Ownership.releaseAll inUse block.toList

/-- `hpl::CircularBuffer`, with the block that `buffer_` points to; `none` is null. -/
structure HeapBuffer where
  fields : CircularBuffer
  block : Option Nat
  deriving Repr, DecidableEq

namespace HeapBuffer

/-- `CircularBuffer(size)`; the result of `malloc` is not looked at. -/
def new (inUse : List Nat) (size : Nat) (malloc : Malloc size) : HeapBuffer × List Nat :=
  match malloc with
  | none => ({ fields := { size, buffer := [] }, block := none }, inUse)
  | some (block, memory) =>
    ({ fields := CircularBuffer.new memory.toList, block := some block }, block :: inUse)

/-- What is left of a buffer that another one was moved from. -/
def movedFrom : HeapBuffer := { fields := { size := 0, buffer := [] }, block := none }

/-- `CircularBuffer(CircularBuffer &&other)`: the new buffer, and `other`. -/
def moveConstruct (other : HeapBuffer) : HeapBuffer × HeapBuffer := (other, movedFrom)

/-- `operator=(CircularBuffer &&other)` for another buffer than `this`: both, and the blocks
    in use. -/
def moveAssign (this other : HeapBuffer) (inUse : List Nat) :
    Option ((HeapBuffer × HeapBuffer) × List Nat) := do
  let inUse ← free inUse this.block
  return ((other, movedFrom), inUse)

/-- `~CircularBuffer()` -/
def destroy (this : HeapBuffer) (inUse : List Nat) : Option (List Nat) := free inUse this.block

/-- The memory that `buffer_` points to can be read and written. -/
def Accessible (this : HeapBuffer) (inUse : List Nat) : Prop := ∃ block ∈ this.block, block ∈ inUse

instance (this : HeapBuffer) : DecidablePred this.Accessible := fun inUse =>
  inferInstanceAs (Decidable (∃ block ∈ this.block, block ∈ inUse))

/-- `Extend`. It is a fault to copy from memory that is not there. -/
def extend (this : HeapBuffer) (inUse : List Nat) (newSize : Nat) (malloc : Malloc newSize) :
    Option (Bool × HeapBuffer × List Nat) :=
  if newSize ≤ this.fields.size then some (false, this, inUse) -- `malloc` is not called
  else
    match malloc with
    | none => some (false, this, inUse)
    | some (block, memory) => do
      let inUse := block :: inUse
      if 0 < this.fields.length ∧ ¬ this.Accessible inUse then none
      else
        let inUse ← free inUse this.block
        let (ret, fields) := this.fields.extend newSize (some memory)
        return (ret, { fields, block := some block }, inUse)

/-- `Popout`. The remainder of a division by 0 is a fault. -/
def popout (this : HeapBuffer) (len : Nat) : Option (Nat × HeapBuffer) :=
  if len ≤ this.fields.length ∧ this.fields.size = 0 then none
  else
    let (ret, fields) := this.fields.popout len
    some (ret, { this with fields })

end HeapBuffer

end Httpoll.Native
