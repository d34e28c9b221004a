import Httpoll.ForStd.Fifo
import Httpoll.ForStd.Runs
import Httpoll.Native.CircularBuffer

/-!
# `CircularBuffer` as a bounded queue

A caller writes at the pointer of `ContinuousWriteBuffer`, moves the write position by the
length of what it has written, and back to 0 when it has reached the end of the memory. Used
so, the buffer is a bounded FIFO queue: one slot stays free, so that equal positions mean
an empty buffer.

## Key results

- `writeContinuous_contents`, `popout_contents`, `extend_contents`: what each operation does
  to the bytes that the read views show
- `extend_preserves`: `Extend` moves them to larger memory, or changes nothing
- `refines_fifo`: every run of the operations is one of a bounded queue
-/

namespace Httpoll.Native

/-! ## `memcpy` -/

theorem length_memcpy {dst src : Bytes} {off : Nat} (h : off + src.length ≤ dst.length) :
    (memcpy dst off src).length = dst.length := by
  simp only [memcpy, List.length_append, List.length_take, List.length_drop]
  omega

/-- The memory up to the end of what is copied. -/
theorem memcpy_take {dst src : Bytes} {off : Nat} (h : off + src.length ≤ dst.length) :
    (memcpy dst off src).take (off + src.length) = dst.take off ++ src := by
  have hlen : (dst.take off ++ src).length = off + src.length := by
    simp only [List.length_append, List.length_take]
    omega
  exact List.take_left' hlen

/-- The memory behind what is copied. -/
theorem memcpy_drop {dst src : Bytes} {off n : Nat} (h : off + src.length ≤ dst.length)
    (hn : off + src.length ≤ n) : (memcpy dst off src).drop n = dst.drop n := by
  have hlen : (dst.take off ++ src).length = off + src.length := by
    simp only [List.length_append, List.length_take]
    omega
  -- `n` is `k` places behind the end of the copy
  obtain ⟨k, rfl⟩ := Nat.exists_eq_add_of_le hn
  rw [memcpy, ← List.drop_drop, List.drop_left' hlen, List.drop_drop]

/-- Two copies, one right behind the other. -/
theorem memcpy_memcpy_take {dst first second : Bytes}
    (h : first.length + second.length ≤ dst.length) :
    (memcpy (memcpy dst 0 first) first.length second).take (first.length + second.length) =
      first ++ second := by
  have hfit : 0 + first.length ≤ dst.length := by omega
  have hfirst := memcpy_take hfit
  rw [Nat.zero_add, List.take_zero, List.nil_append] at hfirst
  rw [memcpy_take (by rw [length_memcpy hfit]; exact h), hfirst]

namespace CircularBuffer

/-! ## The invariant -/

/-- Both positions lie in the memory that was allocated. -/
structure Valid (b : CircularBuffer) : Prop where
  buffer_length : b.buffer.length = b.size
  readPos_lt : b.readPos < b.size
  writePos_lt : b.writePos < b.size

/-- The bytes that the read views show. -/
def contents (b : CircularBuffer) : Bytes := b.getReadViews.1 ++ b.getReadViews.2

theorem contents_of_lt {b : CircularBuffer} (h : b.writePos < b.readPos) :
    b.contents = (b.buffer.drop b.readPos).take (b.size - b.readPos) ++
      b.buffer.take b.writePos := by
  simp only [contents, getReadViews, h, if_true, view, List.drop_zero]

theorem contents_of_le {b : CircularBuffer} (h : b.readPos ≤ b.writePos) :
    b.contents = (b.buffer.drop b.readPos).take (b.writePos - b.readPos) := by
  simp only [contents, getReadViews, Nat.not_lt.mpr h, if_false, view, List.append_nil]

/-- The same bytes, cut off the memory before the write position. -/
theorem contents_of_le' {b : CircularBuffer} (h : b.readPos ≤ b.writePos) :
    b.contents = (b.buffer.take b.writePos).drop b.readPos := by
  rw [contents_of_le h, List.drop_take]

/-- The read position lies in the memory that was allocated, the write position there or at its
    end: a caller that only adds up its writes leaves it there. -/
structure InMemory (b : CircularBuffer) : Prop where
  buffer_length : b.buffer.length = b.size
  readPos_lt : b.readPos < b.size
  writePos_le : b.writePos ≤ b.size

theorem Valid.inMemory {b : CircularBuffer} (h : b.Valid) : b.InMemory :=
  { buffer_length := h.buffer_length
    readPos_lt := h.readPos_lt
    writePos_le := Nat.le_of_lt h.writePos_lt }

/-- `Length` is the number of these bytes. -/
theorem InMemory.length_contents {b : CircularBuffer} (h : b.InMemory) :
    b.contents.length = b.length := by
  have hlen := h.buffer_length
  have hw := h.writePos_le
  unfold length
  rcases Nat.lt_or_ge b.writePos b.readPos with hlt | hge
  · -- the data goes on at the start of the memory
    have hne : ¬ b.writePos = b.readPos := by omega
    have hnge : ¬ b.writePos ≥ b.readPos := by omega
    rw [contents_of_lt hlt, if_neg hne, if_neg hnge]
    simp only [List.length_append, List.length_take, List.length_drop]
    omega
  · rw [contents_of_le hge]
    simp only [List.length_take, List.length_drop]
    split <;> omega

/-- The memory may be full, up to its last byte. -/
theorem InMemory.length_le_size {b : CircularBuffer} (h : b.InMemory) : b.length ≤ b.size := by
  have hr := h.readPos_lt
  have hw := h.writePos_le
  unfold length
  split
  · omega
  · split <;> omega

theorem Valid.length_le_capacity {b : CircularBuffer} (h : b.Valid) : b.length ≤ b.capacity := by
  have hr := h.readPos_lt
  have hw := h.writePos_lt
  unfold length capacity
  split
  · omega
  · split <;> omega

/-- No more is offered than there is free space. -/
theorem Valid.continuousWriteBuffer_le {b : CircularBuffer} (h : b.Valid) :
    b.continuousWriteBuffer.2 ≤ b.freeSpace := by
  have hr := h.readPos_lt
  have hw := h.writePos_lt
  unfold continuousWriteBuffer freeSpace capacity length
  split
  · dsimp only
    split
    · omega
    · split <;> omega
  · dsimp only
    split <;> split
    · omega
    · split <;> omega
    · omega
    · split <;> omega

theorem new_valid {memory : Bytes} (h : 1 ≤ memory.length) : (new memory).Valid :=
  ⟨rfl, h, h⟩

/-! ## Writing -/

/-- What a caller does with `ContinuousWriteBuffer` to add `data`. -/
def writeContinuous (b : CircularBuffer) (data : Bytes) : CircularBuffer :=
  let b := { b with buffer := memcpy b.buffer b.continuousWriteBuffer.1 data }
  let b := b.resetWritePos data.length .SEEK_CUR
  if b.writePos = b.size then b.resetWritePos 0 .SEEK_SET else b

/-- The memory after a write, without the wrap around. -/
private theorem writeContinuous_eq (b : CircularBuffer) (data : Bytes) :
    b.writeContinuous data =
      { b with
        buffer := memcpy b.buffer b.writePos data
        writePos :=
          if b.writePos + data.length = b.size then 0 else b.writePos + data.length } := by
  have hpos : b.continuousWriteBuffer.1 = b.writePos := by
    unfold continuousWriteBuffer
    split <;> rfl
  by_cases h : b.writePos + data.length = b.size
  · simp only [writeContinuous, hpos, resetWritePos, h, if_true]
  · simp only [writeContinuous, hpos, resetWritePos, h, if_false]

theorem writeContinuous_valid {b : CircularBuffer} {data : Bytes} (h : b.Valid)
    (hdata : data.length ≤ b.continuousWriteBuffer.2) : (b.writeContinuous data).Valid := by
  obtain ⟨hlen, hr, hw⟩ := h
  -- what is offered ends before the end of the memory
  have hfit : b.writePos + data.length ≤ b.size := by
    unfold continuousWriteBuffer at hdata
    split at hdata <;> dsimp only at hdata <;> omega
  rw [writeContinuous_eq]
  constructor
  · dsimp only
    rw [length_memcpy (by omega), hlen]
  · exact hr
  · dsimp only
    split <;> omega

/-- A write appends to the contents. -/
theorem writeContinuous_contents {b : CircularBuffer} {data : Bytes} (h : b.Valid)
    (hdata : data.length ≤ b.continuousWriteBuffer.2) :
    (b.writeContinuous data).contents = b.contents ++ data := by
  obtain ⟨hlen, hr, hw⟩ := h
  rw [writeContinuous_eq]
  unfold continuousWriteBuffer at hdata
  rcases Nat.lt_or_ge b.writePos b.readPos with hlt | hge
  · -- the write stays below the read position
    rw [if_pos hlt] at hdata
    dsimp only at hdata
    have hend : b.writePos + data.length < b.readPos := by omega
    rw [if_neg (by omega), contents_of_lt hlt, contents_of_lt hend]
    dsimp only
    rw [memcpy_take (by omega), memcpy_drop (by omega) (by omega), List.append_assoc]
  · rw [if_neg (by omega)] at hdata
    dsimp only at hdata
    have hfit : b.writePos + data.length ≤ b.buffer.length := by omega
    -- the data ends up right behind the contents
    have hnew : ((memcpy b.buffer b.writePos data).take (b.writePos + data.length)).drop b.readPos =
        b.contents ++ data := by
      rw [memcpy_take hfit, List.drop_append_of_le_length (by rw [List.length_take]; omega),
        contents_of_le' hge]
    by_cases hwrap : b.writePos + data.length = b.size
    · -- the write position wraps around, to below the read position
      have hpos : 0 < b.readPos := by
        split at hdata <;> omega
      rw [if_pos hwrap, contents_of_lt hpos, ← hnew, hwrap]
      dsimp only
      rw [List.take_zero, List.append_nil, List.drop_take]
    · rw [if_neg hwrap, contents_of_le' (by dsimp only; omega), ← hnew]

/-! ## Reading -/

theorem popout_of_lt {b : CircularBuffer} {n : Nat} (h : b.length < n) : b.popout n = (0, b) := by
  unfold popout
  rw [if_pos h]

theorem popout_of_le {b : CircularBuffer} {n : Nat} (h : n ≤ b.length) :
    b.popout n = (n, { b with readPos := (b.readPos + n) % b.size }) := by
  unfold popout
  rw [if_neg (Nat.not_lt.mpr h)]

theorem popout_fst {b : CircularBuffer} {n : Nat} (h : n ≤ b.length) : (b.popout n).1 = n := by
  rw [popout_of_le h]

theorem popout_valid {b : CircularBuffer} (h : b.Valid) (n : Nat) : (b.popout n).2.Valid := by
  obtain ⟨hlen, hr, hw⟩ := h
  unfold popout
  split
  · exact ⟨hlen, hr, hw⟩
  · exact ⟨hlen, Nat.mod_lt _ (by omega), hw⟩

/-- `Popout` removes the bytes at the front. -/
theorem popout_contents {b : CircularBuffer} (h : b.Valid) {n : Nat} (hn : n ≤ b.length) :
    (b.popout n).2.contents = b.contents.drop n := by
  obtain ⟨hlen, hr, hw⟩ := h
  unfold popout
  rw [if_neg (by omega)]
  dsimp only
  unfold length at hn
  rcases Nat.lt_or_ge b.writePos b.readPos with hlt | hge
  · rw [if_neg (by omega), if_neg (by omega)] at hn
    rw [contents_of_lt hlt]
    have hall : (b.buffer.drop b.readPos).take (b.size - b.readPos) = b.buffer.drop b.readPos :=
      List.take_of_length_le (by rw [List.length_drop]; omega)
    rcases Nat.lt_or_ge (b.readPos + n) b.size with hin | hout
    · -- the read position stays in the first view
      rw [Nat.mod_eq_of_lt hin, hall]
      by_cases hlt' : b.writePos < b.readPos + n
      · rw [contents_of_lt hlt']
        dsimp only
        rw [List.drop_append_of_le_length (by rw [List.length_drop]; omega), List.drop_drop,
          List.take_of_length_le (by rw [List.length_drop]; omega)]
      · omega
    · -- it moves on to the second one
      have hmod : (b.readPos + n) % b.size = b.readPos + n - b.size := by
        rw [Nat.mod_eq_sub_mod hout, Nat.mod_eq_of_lt (by omega)]
      have hback : b.readPos + n - b.size ≤ b.writePos := by omega
      have hfirst : (b.buffer.drop b.readPos).drop n = [] := by
        rw [List.drop_drop]
        exact List.drop_of_length_le (by omega)
      rw [hmod, contents_of_le' hback, hall, List.drop_append, hfirst, List.nil_append,
        List.length_drop, hlen, show n - (b.size - b.readPos) = b.readPos + n - b.size by omega]
  · -- the read position does not overtake the write position
    have hle : b.readPos + n ≤ b.writePos := by
      split at hn <;> omega
    rw [Nat.mod_eq_of_lt (by omega), contents_of_le' hge, List.drop_drop, contents_of_le' hle]

/-! ## Growing -/

theorem extend_of_le {b : CircularBuffer} {newSize : Nat} (h : newSize ≤ b.size)
    (memory : Option (Vector UInt8 newSize)) : b.extend newSize memory = (false, b) := by
  unfold extend
  rw [if_pos h]

/-- The new memory begins with the contents. -/
private theorem extend_copies {b : CircularBuffer} (h : b.InMemory) {newSize : Nat}
    (hsize : b.size < newSize) (memory : Vector UInt8 newSize) :
    ∃ newBuffer : Bytes, newBuffer.length = newSize ∧ newBuffer.take b.length = b.contents ∧
      b.extend newSize (some memory) =
        (true, { size := newSize, buffer := newBuffer, readPos := 0, writePos := b.length }) := by
  have hcontents := h.length_contents
  have hle := h.length_le_size
  obtain ⟨hlen, hr, hw⟩ := h
  have hmem : memory.toList.length = newSize := by simp
  unfold extend
  rw [if_neg (by omega)]
  dsimp only
  split
  · rename_i hpos
    split
    · -- the data is one range of the memory
      rename_i hlt
      have hrange : (b.buffer.drop b.readPos).take b.length = b.contents := by
        rw [contents_of_le (Nat.le_of_lt hlt), length, if_neg (by omega), if_pos (by omega)]
      rw [hrange]
      have hfit : 0 + b.contents.length ≤ memory.toList.length := by omega
      have htake := memcpy_take hfit
      rw [List.take_zero, List.nil_append, Nat.zero_add, hcontents] at htake
      exact ⟨_, by rw [length_memcpy hfit, hmem], htake, rfl⟩
    · -- the data is in two ranges, which come one after the other in the new memory
      rename_i hge
      have hlt : b.writePos < b.readPos := by
        unfold length at hpos
        split at hpos <;> omega
      have hparts : b.contents = (b.buffer.drop b.readPos).take (b.size - b.readPos) ++
          b.buffer.take b.writePos := contents_of_lt hlt
      have hfirst : ((b.buffer.drop b.readPos).take (b.size - b.readPos)).length =
          b.size - b.readPos := by
        rw [List.length_take, List.length_drop]
        omega
      generalize (b.buffer.drop b.readPos).take (b.size - b.readPos) = first at *
      generalize b.buffer.take b.writePos = second at *
      have hsum : first.length + second.length = b.length := by
        rw [← hcontents, hparts, List.length_append]
      have hfit₁ : 0 + first.length ≤ memory.toList.length := by omega
      have hfit₂ : first.length + second.length ≤ (memcpy memory.toList 0 first).length := by
        rw [length_memcpy hfit₁]
        omega
      have hfits : first.length + second.length ≤ memory.toList.length := by omega
      have htake := memcpy_memcpy_take hfits
      rw [← hparts, hsum] at htake
      rw [← hfirst]
      exact ⟨_, by rw [length_memcpy hfit₂, length_memcpy hfit₁, hmem], htake, rfl⟩
  · -- there is nothing to copy
    have hnil : b.contents = [] := List.length_eq_zero_iff.mp (by omega)
    have hzero : b.length = 0 := by omega
    refine ⟨_, hmem, ?_, rfl⟩
    rw [hnil, hzero, List.take_zero]

/-- A buffer that grows keeps its contents. -/
theorem extend_contents {b : CircularBuffer} (h : b.InMemory) {newSize : Nat}
    (hsize : b.size < newSize) (memory : Vector UInt8 newSize) :
    (b.extend newSize (some memory)).1 = true ∧
      (b.extend newSize (some memory)).2.Valid ∧
      (b.extend newSize (some memory)).2.contents = b.contents ∧
      (b.extend newSize (some memory)).2.size = newSize := by
  obtain ⟨newBuffer, hlength, htake, hextend⟩ := extend_copies h hsize memory
  have hle := h.length_le_size
  -- the new memory is larger, so a slot stays free behind the contents
  have hspace : b.length < newSize := by omega
  have hzero : 0 < newSize := by omega
  rw [hextend]
  refine ⟨rfl, ⟨hlength, hzero, hspace⟩, ?_, rfl⟩
  rw [contents_of_le (Nat.zero_le _)]
  exact htake

/-- **Growing keeps the data.** When `Extend` returns true, the capacity is that of the new
    size, and the read views show the same bytes, as many as `Length` says before and after.
    It returns false exactly when the new size is not larger or there is no memory, and then
    nothing has changed. -/
theorem extend_preserves {b : CircularBuffer} (h : b.InMemory) (newSize : Nat)
    (memory : Option (Vector UInt8 newSize)) :
    ((b.extend newSize memory).1 = true →
      (b.extend newSize memory).2.capacity = newSize - 1 ∧
        (b.extend newSize memory).2.length = b.length ∧
        (b.extend newSize memory).2.getReadViews.1 ++ (b.extend newSize memory).2.getReadViews.2 =
          b.getReadViews.1 ++ b.getReadViews.2) ∧
    ((b.extend newSize memory).1 = false →
      (b.extend newSize memory).2 = b ∧ (newSize ≤ b.size ∨ memory = none)) := by
  by_cases hsize : newSize ≤ b.size
  · rw [extend_of_le hsize]
    exact ⟨fun hfalse => Bool.noConfusion hfalse, fun _ => ⟨rfl, .inl hsize⟩⟩
  · cases memory with
    -- `malloc` fails, and the buffer stays as it is
    | none =>
      have hextend : b.extend newSize none = (false, b) := by
        unfold extend
        rw [if_neg hsize]
      rw [hextend]
      exact ⟨fun hfalse => Bool.noConfusion hfalse, fun _ => ⟨rfl, .inr rfl⟩⟩
    | some memory =>
      -- the contents are copied to the start of the new memory
      obtain ⟨htrue, hvalid, hcontents, hnew⟩ := extend_contents h (by omega) memory
      have hlength : (b.extend newSize (some memory)).2.length = b.length := by
        rw [← hvalid.inMemory.length_contents, hcontents, h.length_contents]
      have hcapacity : (b.extend newSize (some memory)).2.capacity = newSize - 1 := by
        rw [capacity, hnew]
      refine ⟨fun _ => ⟨hcapacity, hlength, hcontents⟩, fun hfalse => ?_⟩
      rw [htrue] at hfalse
      exact Bool.noConfusion hfalse

/-- A full buffer that wraps around, one that is written up to its end, and one that is asked to
    shrink. -/
theorem extend_preserves_three :
    let wrapped : CircularBuffer := ⟨4, [3, 9, 1, 2], 2, 1⟩
    let atEnd : CircularBuffer := ⟨4, [9, 1, 2, 3], 1, 4⟩
    (wrapped.extend 6 (some (.replicate 6 0))).2.getReadViews.1 ++
        (wrapped.extend 6 (some (.replicate 6 0))).2.getReadViews.2 = [1, 2, 3] ∧
      (atEnd.extend 6 (some (.replicate 6 0))).2.length = 3 ∧
      (wrapped.extend 3 none).2 = wrapped := by
  intro wrapped atEnd
  have hwrapped : wrapped.InMemory := ⟨rfl, by decide, by decide⟩
  have hatEnd : atEnd.InMemory := ⟨rfl, by decide, by decide⟩
  refine ⟨?_, ?_, ?_⟩
  · exact ((extend_preserves hwrapped 6 (some (.replicate 6 0))).1 (by decide)).2.2
  · exact ((extend_preserves hatEnd 6 (some (.replicate 6 0))).1 (by decide)).2.1
  · exact ((extend_preserves hwrapped 3 none).2 (by decide)).1

/-! ## Runs -/

/-- What a user does with a buffer. -/
inductive Op where
  | write (data : Bytes)
  | popout (n : Nat)
  /-- `Extend`, with the memory that `malloc` returns. -/
  | extend (newSize : Nat) (memory : Vector UInt8 newSize)

/-- The operations on the buffer. A caller writes no more than is offered. -/
def step (b : CircularBuffer) : Op → Option CircularBuffer
  | .write data =>
    if data.length ≤ b.continuousWriteBuffer.2 then some (b.writeContinuous data) else none
  | .popout n => some (b.popout n).2
  | .extend newSize memory => some (b.extend newSize (some memory)).2

/-- The operations on a queue. -/
def fifoStep (q : Fifo UInt8) : Op → Option (Fifo UInt8)
  | .write data => q.push data
  | .popout n => some (if n ≤ q.items.length then q.pop n else q)
  | .extend newSize _ => some (q.grow (newSize - 1))

/-- The buffer shows what is in the queue. -/
structure Refines (b : CircularBuffer) (q : Fifo UInt8) : Prop where
  valid : b.Valid
  contents : b.contents = q.items
  capacity : b.capacity = q.capacity

theorem Refines.length {b : CircularBuffer} {q : Fifo UInt8} (h : b.Refines q) :
    b.length = q.items.length := by
  rw [← h.contents, h.valid.inMemory.length_contents]

/-- Every operation on the buffer is one on the queue. -/
theorem Refines.step {b b' : CircularBuffer} {q : Fifo UInt8} {op : Op} (h : b.Refines q)
    (hstep : b.step op = some b') : ∃ q', fifoStep q op = some q' ∧ b'.Refines q' := by
  have hlen := h.length
  cases op with
  | write data =>
    simp only [CircularBuffer.step] at hstep
    split at hstep
    · rename_i hdata
      cases hstep
      -- what the buffer offers, the queue has room for
      have hroom : data.length ≤ q.room := by
        have hfree := h.valid.continuousWriteBuffer_le
        unfold freeSpace at hfree
        rw [h.capacity, hlen] at hfree
        exact Nat.le_trans hdata hfree
      obtain ⟨q', hq', hitems, hcap⟩ := Fifo.push_eq_some hroom
      refine ⟨q', hq', writeContinuous_valid h.valid hdata, ?_, ?_⟩
      · rw [writeContinuous_contents h.valid hdata, h.contents, hitems]
      · rw [hcap, ← h.capacity, writeContinuous_eq]
        rfl
    · cases hstep
  | popout n =>
    cases hstep
    refine ⟨_, rfl, popout_valid h.valid n, ?_, ?_⟩
    · split
      · rename_i hn
        rw [popout_contents h.valid (hlen ▸ hn), h.contents, Fifo.pop_items]
      · rename_i hn
        rw [popout_of_lt (by omega)]
        exact h.contents
    · -- neither a pop nor a refused one changes the size
      have hcap : (b.popout n).2.capacity = b.capacity := by
        unfold popout
        split <;> rfl
      rw [hcap, h.capacity]
      split <;> rfl
  | extend newSize memory =>
    cases hstep
    refine ⟨_, rfl, ?_⟩
    have hcap := h.capacity
    unfold CircularBuffer.capacity at hcap
    rcases Nat.lt_or_ge b.size newSize with hlt | hge
    · obtain ⟨-, hvalid, hcontents, hsize⟩ := extend_contents h.valid.inMemory hlt memory
      refine ⟨hvalid, by rw [hcontents, h.contents]; rfl, ?_⟩
      unfold CircularBuffer.capacity Fifo.grow
      dsimp only
      omega
    · -- a buffer never shrinks
      rw [extend_of_le hge]
      refine ⟨h.valid, h.contents, ?_⟩
      unfold CircularBuffer.capacity Fifo.grow
      dsimp only
      omega

/-- **A bounded queue.** After any run of writes, pops and extensions the read views show the
    bytes that were written and not popped, in their order; there are `Length()` of them, at
    most `Capacity()`. A pop takes bytes off their front, or nothing when there are too few,
    and no more is ever offered for writing than there is free space. -/
theorem refines_fifo {memory : Bytes} (hsize : 1 ≤ memory.length) {ops : List Op}
    {b : CircularBuffer} (run : ops.foldlM step (new memory) = some b) :
    ∃ q, ops.foldlM fifoStep (Fifo.empty (memory.length - 1)) = some q ∧
      b.getReadViews.1 ++ b.getReadViews.2 = q.items ∧
      b.length = q.items.length ∧ b.length ≤ b.capacity ∧ b.capacity = q.capacity ∧
      b.continuousWriteBuffer.2 ≤ b.freeSpace ∧
      (∀ n ≤ b.length, (b.popout n).1 = n ∧
        (b.popout n).2.getReadViews.1 ++ (b.popout n).2.getReadViews.2 = q.items.drop n) ∧
      ∀ n > b.length, b.popout n = (0, b) := by
  have hnew : (new memory).Refines (Fifo.empty (memory.length - 1)) :=
    { valid := new_valid hsize
      contents := by
        rw [contents_of_le (Nat.le_refl _)]
        exact List.take_zero
      capacity := rfl }
  -- every operation is matched by the one on the queue
  obtain ⟨q, hq, h⟩ := Runs.simulation id (P := fun _ _ => True)
    (fun b q op b' h _ hstep => h.step hstep) hnew
    (Runs.along_of_forall (fun _ _ _ => trivial) _) run
  rw [List.map_id] at hq
  refine ⟨q, hq, h.contents, h.length, h.valid.length_le_capacity, h.capacity,
    h.valid.continuousWriteBuffer_le, ?_, fun n hn => popout_of_lt hn⟩
  intro n hn
  exact ⟨popout_fst hn, by rw [← h.contents]; exact popout_contents h.valid hn⟩

/-- A run in which both positions wrap around, a pop asks for too much, and the memory grows. -/
theorem refines_fifo_wrapped :
    let ops : List Op := [.write [1, 2, 3], .popout 2, .write [4, 5], .write [6], .popout 3,
      .popout 9, .write [7, 8, 9], .extend 8 (.replicate 8 0), .write [10]]
    ∃ (b : CircularBuffer) (q : Fifo UInt8), ops.foldlM step (new [0, 0, 0, 0, 0]) = some b ∧
      ops.foldlM fifoStep (Fifo.empty 4) = some q ∧
      b.getReadViews.1 ++ b.getReadViews.2 = q.items ∧ q.items = [6, 7, 8, 9, 10] := by
  intro ops
  have hrun : ops.foldlM step (new [0, 0, 0, 0, 0]) =
      some ⟨8, [6, 7, 8, 9, 10, 0, 0, 0], 0, 5⟩ := by decide
  obtain ⟨q, hq, hviews, -⟩ := refines_fifo (by decide) hrun
  exact ⟨_, q, hrun, hq, hviews, hviews.symm.trans (by decide)⟩

end CircularBuffer

end Httpoll.Native
