import Httpoll.ForStd.Runs
import Httpoll.Spec.CircularBufferFifo

/-!
# `CircularBuffer` without wrap around

A caller who only adds up what it writes: after each write it moves the write position by
`ResetWritePos(k, SEEK_CUR)`, and never back to the start of the memory. Then the write
position counts the bytes that were committed and the read position those that were popped,
until the last byte of the memory is popped: the read position goes back to 0, and the write
position stays at the end.

## Key results

- `accounted_iff`: the lengths are those of the bytes committed and not popped, in every state
  of a run, exactly when no `Popout` empties a buffer that is written up to its end
-/

namespace Httpoll.Native.CircularBuffer

/-! ## Checked subtractions -/

/-- A subtraction that does not wrap around. -/
theorem psub_of_le {m n : Nat} (h : n ≤ m) : m.psub n = some (m - n) :=
  Nat.psub_eq_some.mpr (Nat.sub_add_cancel h)

theorem checkedContinuousWriteBuffer_eq {b : CircularBuffer} (hr : b.readPos ≤ b.writePos)
    (hw : b.writePos + (if b.readPos = 0 then 1 else 0) ≤ b.size) :
    b.checkedContinuousWriteBuffer = some b.continuousWriteBuffer := by
  unfold checkedContinuousWriteBuffer continuousWriteBuffer
  rw [if_neg (Nat.not_lt.mpr hr), if_neg (Nat.not_lt.mpr hr), psub_of_le (by omega)]
  show ((b.size - b.writePos).psub (if b.readPos = 0 then 1 else 0)).bind _ = _
  rw [psub_of_le (by omega)]
  rfl

theorem checkedLength_eq {b : CircularBuffer} (hr : b.readPos ≤ b.writePos) :
    b.checkedLength = some b.length := by
  unfold checkedLength length
  split
  · rfl
  · exact psub_of_le hr

theorem checkedFreeSpace_eq {b : CircularBuffer} (hr : b.readPos ≤ b.writePos)
    (hsize : 1 ≤ b.size) (hlength : b.length ≤ b.capacity) :
    b.checkedFreeSpace = some b.freeSpace := by
  unfold checkedFreeSpace
  rw [psub_of_le hsize, checkedLength_eq hr]
  exact psub_of_le hlength

theorem length_of_le {b : CircularBuffer} (hr : b.readPos ≤ b.writePos) :
    b.length = b.writePos - b.readPos := by
  unfold length
  split
  · omega
  · rfl

/-! ## Commits -/

/-- What a caller does with a buffer: it writes some bytes at the pointer of
    `ContinuousWriteBuffer` and calls `ResetWritePos(k, SEEK_CUR)`, or it calls `Popout`. -/
inductive Call where
  | commit (data : Bytes)
  | popout (n : Nat)

/-- The memory and the write position after a commit. -/
def commit (b : CircularBuffer) (data : Bytes) : CircularBuffer :=
  { b with buffer := memcpy b.buffer b.continuousWriteBuffer.1 data }.resetWritePos
    data.length .SEEK_CUR

/-- A buffer, with what was committed to it and popped from it. -/
structure Ledger where
  buffer : CircularBuffer
  committed : Nat := 0
  popped : Nat := 0
  deriving DecidableEq

namespace Ledger

/-- One call. A caller commits no more than is offered, and there is no such offer where the
    subtraction for it wraps around. -/
def step (s : Ledger) : Call → Option Ledger
  | .commit data => do
    let (_, len) ← s.buffer.checkedContinuousWriteBuffer
    if data.length ≤ len then
      some { s with buffer := s.buffer.commit data, committed := s.committed + data.length }
    else none
  | .popout n =>
    let (popped, buffer) := s.buffer.popout n
    some { s with buffer, popped := s.popped + popped }

/-- `Length`, `FreeSpace` and `ContinuousWriteBuffer` account for what the buffer holds. -/
structure Accounted (s : Ledger) : Prop where
  length : s.popped + s.buffer.length = s.committed
  capacity : s.buffer.length ≤ s.buffer.capacity
  freeSpace : s.buffer.checkedFreeSpace = some s.buffer.freeSpace
  offer : s.buffer.checkedContinuousWriteBuffer = some s.buffer.continuousWriteBuffer

/-- The last bytes are popped from a buffer that is written up to the end of its memory. -/
def EmptiesAtEnd (s : Ledger) : Call → Prop
  | .commit _ => False
  | .popout n => s.buffer.writePos = s.buffer.size ∧ n = s.buffer.length

/-- The positions count the bytes, and the read position has not come to the end. -/
structure Inv (s : Ledger) : Prop where
  readPos : s.buffer.readPos = s.popped
  writePos : s.buffer.writePos = s.committed
  readPos_le : s.buffer.readPos ≤ s.buffer.writePos
  readPos_lt : s.buffer.readPos < s.buffer.size
  writePos_le : s.buffer.writePos + (if s.buffer.readPos = 0 then 1 else 0) ≤ s.buffer.size

theorem Inv.accounted {s : Ledger} (h : s.Inv) : s.Accounted := by
  obtain ⟨hpopped, hcommitted, hle, hlt, hend⟩ := h
  have hlength := length_of_le hle
  have hcapacity : s.buffer.length ≤ s.buffer.capacity := by
    rw [hlength, CircularBuffer.capacity]
    split at hend <;> omega
  exact
    { length := by omega
      capacity := hcapacity
      freeSpace := checkedFreeSpace_eq hle (by omega) hcapacity
      offer := checkedContinuousWriteBuffer_eq hle hend }

/-- A commit ends before the end of the memory, or at it. -/
private theorem Inv.commit {s s' : Ledger} (h : s.Inv) {data : Bytes}
    (hstep : s.step (.commit data) = some s') : s'.Inv := by
  obtain ⟨hpopped, hcommitted, hle, hlt, hend⟩ := h
  simp only [step, checkedContinuousWriteBuffer_eq hle hend, Option.bind_eq_bind,
    Option.bind_some] at hstep
  split at hstep
  · rename_i hdata
    cases hstep
    unfold continuousWriteBuffer at hdata
    -- what is offered is the memory from the write position to the end
    rw [if_neg (Nat.not_lt.mpr hle)] at hdata
    dsimp only at hdata
    constructor
    · exact hpopped
    · exact congrArg (· + data.length) hcommitted
    · show s.buffer.readPos ≤ s.buffer.writePos + data.length
      omega
    · exact hlt
    · show s.buffer.writePos + data.length + (if s.buffer.readPos = 0 then 1 else 0) ≤
        s.buffer.size
      omega
  · cases hstep

theorem step_popout_of_lt {s : Ledger} {n : Nat} (h : s.buffer.length < n) :
    s.step (.popout n) = some s := by
  simp only [step, popout_of_lt h]
  rfl

theorem step_popout_of_le {s : Ledger} {n : Nat} (h : n ≤ s.buffer.length) :
    s.step (.popout n) = some
      { s with
        buffer := { s.buffer with readPos := (s.buffer.readPos + n) % s.buffer.size }
        popped := s.popped + n } := by
  simp only [step, popout_of_le h]

/-- A `Popout` leaves the read position before the end of the memory, unless it takes the last
    bytes that fit. -/
private theorem Inv.popout {s s' : Ledger} (h : s.Inv) {n : Nat} (hn : ¬ s.EmptiesAtEnd (.popout n))
    (hstep : s.step (.popout n) = some s') : s'.Inv := by
  obtain ⟨hpopped, hcommitted, hle, hlt, hend⟩ := h
  have hlength := length_of_le hle
  rcases Nat.lt_or_ge s.buffer.length n with hmore | hfew
  -- more than there is: nothing happens
  · rw [step_popout_of_lt hmore, Option.some.injEq] at hstep
    rw [← hstep]
    exact ⟨hpopped, hcommitted, hle, hlt, hend⟩
  · have hin : s.buffer.readPos + n < s.buffer.size := by
      -- a `Popout` that reaches the end of the memory is one that empties the buffer there
      by_contra hout
      refine hn ⟨?_, ?_⟩
      · split at hend <;> omega
      · split at hend <;> omega
    rw [step_popout_of_le hfew, Nat.mod_eq_of_lt hin, Option.some.injEq] at hstep
    rw [← hstep]
    constructor
    · exact congrArg (· + n) hpopped
    · exact hcommitted
    · show s.buffer.readPos + n ≤ s.buffer.writePos
      omega
    · exact hin
    · show s.buffer.writePos + (if s.buffer.readPos + n = 0 then 1 else 0) ≤ s.buffer.size
      split at hend <;> split <;> omega

/-- The pop that empties a buffer at its end makes it look full. -/
private theorem Inv.emptied {s : Ledger} (h : s.Inv) {call : Call} (hcall : s.EmptiesAtEnd call) :
    ∃ s', s.step call = some s' ∧ ¬ s'.Accounted := by
  obtain ⟨hpopped, hcommitted, hle, hlt, hend⟩ := h
  have hlength := length_of_le hle
  cases call with
  | commit data => exact hcall.elim
  | popout n =>
    obtain ⟨hfull, rfl⟩ := hcall
    -- the last byte is at the end of the memory, so the read position goes round to 0
    have hwrap : (s.buffer.readPos + s.buffer.length) % s.buffer.size = 0 := by
      rw [hlength, Nat.add_sub_cancel' hle, hfull, Nat.mod_self]
    refine ⟨_, step_popout_of_le (Nat.le_refl _), ?_⟩
    intro haccounted
    have hcapacity := haccounted.capacity
    dsimp only at hcapacity
    rw [hwrap, length_of_le (Nat.zero_le _), CircularBuffer.capacity] at hcapacity
    dsimp only at hcapacity
    omega

theorem inv_new {memory : Bytes} (hsize : 1 ≤ memory.length) : Inv ⟨.new memory, 0, 0⟩ :=
  ⟨rfl, rfl, Nat.le_refl 0, hsize, hsize⟩

/-- **Accounting.** Along a run of commits and pops, `Length()` is what was committed and not
    popped, it is at most `Capacity()`, and no unsigned subtraction wraps around, in every
    state that the run comes through, exactly when no `Popout` of the run takes all the bytes
    of a buffer whose write position has come to the end of the memory. -/
theorem accounted_iff {memory : Bytes} (hsize : 1 ≤ memory.length) (calls : List Call) :
    (∀ pre, pre <+: calls → ∀ s, pre.foldlM step ⟨.new memory, 0, 0⟩ = some s → s.Accounted) ↔
      Runs.Along step (fun s call => ¬ s.EmptiesAtEnd call) ⟨.new memory, 0, 0⟩ calls := by
  refine Runs.forall_prefix_iff (fun _ => Inv.accounted) ?_ ?_ (inv_new hsize)
  · intro s call s' h hcall hstep
    cases call with
    | commit data => exact h.commit hstep
    | popout n => exact h.popout hcall hstep
  · intro s call h hcall
    exact h.emptied (not_not.mp hcall)

/-- The write position is at the end of the memory, and one byte is left. -/
theorem accounted_up_to_end :
    let calls := [Call.commit [1, 2, 3], .popout 2, .commit [4], .popout 1, .popout 9]
    ∃ s, calls.foldlM step ⟨.new [0, 0, 0, 0], 0, 0⟩ = some s ∧ s.committed = 4 ∧
      s.popped = 3 ∧ s.buffer.length = 1 ∧ s.Accounted := by
  intro calls
  have hcalls : Runs.Along step (fun s call => ¬ s.EmptiesAtEnd call) ⟨.new [0, 0, 0, 0], 0, 0⟩
      calls := by
    refine ⟨id, ?_⟩
    rintro s₁ ⟨⟩
    refine ⟨by unfold EmptiesAtEnd; decide, ?_⟩
    rintro s₂ ⟨⟩
    refine ⟨id, ?_⟩
    rintro s₃ ⟨⟩
    refine ⟨by unfold EmptiesAtEnd; decide, ?_⟩
    rintro s₄ ⟨⟩
    refine ⟨by unfold EmptiesAtEnd; decide, ?_⟩
    rintro s₅ ⟨⟩
    trivial
  have hrun : calls.foldlM step ⟨.new [0, 0, 0, 0], 0, 0⟩ =
      some ⟨⟨4, [1, 2, 3, 4], 3, 4⟩, 4, 3⟩ := by decide
  exact ⟨_, hrun, rfl, rfl, by decide,
    (accounted_iff (by decide) calls).mpr hcalls calls List.prefix_rfl _ hrun⟩

/-- All bytes are popped, and the buffer counts four. -/
theorem emptied_at_end :
    ∃ s, [Call.commit [1, 2, 3], .popout 3, .commit [4], .popout 1].foldlM step
        ⟨.new [0, 0, 0, 0], 0, 0⟩ = some s ∧
      s.committed = 4 ∧ s.popped = 4 ∧ s.buffer.length = 4 ∧ s.buffer.capacity = 3 ∧
      s.buffer.checkedFreeSpace = none ∧ s.buffer.checkedContinuousWriteBuffer = none ∧
      ¬ s.Accounted := by
  refine ⟨⟨⟨4, [1, 2, 3, 4], 0, 4⟩, 4, 4⟩, by decide, rfl, rfl, by decide, rfl, by decide,
    by decide, ?_⟩
  intro h
  exact absurd h.capacity (by decide)

end Ledger

end Httpoll.Native.CircularBuffer
