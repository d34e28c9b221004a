import Mathlib.Data.List.Forall2
import Mathlib.Data.List.Nodup
import Httpoll.Spec.CircularBufferFifo

/-!
# Buffers that are moved

A program makes any number of `CircularBuffer`s, moves them into each other, uses and destroys
them. Each block of memory is freed once, and a move takes the queue of one buffer to another:
what is left of the first one is a buffer with no memory.

## Key results

- `step_balanced`: no operation frees or touches a block that is not in use
- `step_shows`: each operation does to the buffers what it does to queues
- `moves`: both for every run, with the rest of the process using the heap in between
-/

namespace Httpoll.Native.HeapBuffer

open Ownership CircularBuffer

/-! ## Programs -/

/-- What a program does with its buffers, which are known by their places in a list. -/
inductive Op where
  | construct (size : Nat) (malloc : Malloc size)
  | moveConstruct (other : Nat)
  | moveAssign (this other : Nat)
  | extend (this newSize : Nat) (malloc : Malloc newSize)
  | write (this : Nat) (data : Bytes)
  | popout (this len : Nat)
  | destroy (this : Nat)

/-- What is in a place, if it was not destroyed. -/
def alive? {α : Type} (places : List (Option α)) (i : Nat) : Option α := places[i]?.join

/-- What a caller does with `ContinuousWriteBuffer` to add `data`. To write where no memory is,
    or more than is offered, is a fault. -/
def write (this : HeapBuffer) (inUse : List Nat) (data : Bytes) : Option HeapBuffer :=
  if this.Accessible inUse ∧ data.length ≤ this.fields.continuousWriteBuffer.2 then
    some { this with fields := this.fields.writeContinuous data }
  else none

/-- One operation: the buffers, and the blocks in use. -/
def step (buffers : List (Option HeapBuffer)) (inUse : List Nat) :
    Op → Option (List (Option HeapBuffer) × List Nat)
  | .construct size malloc =>
    let (this, inUse) := new inUse size malloc
    some (buffers ++ [some this], inUse)
  | .moveConstruct other => do
    let b ← alive? buffers other
    let (this, b) := moveConstruct b
    return (buffers.set other (some b) ++ [some this], inUse)
  | .moveAssign this other => do
    let a ← alive? buffers this
    let b ← alive? buffers other
    if this = other then return (buffers, inUse)
    else
      let ((a, b), inUse) ← moveAssign a b inUse
      return ((buffers.set other (some b)).set this (some a), inUse)
  | .extend this newSize malloc => do
    let a ← alive? buffers this
    let (_, a, inUse) ← a.extend inUse newSize malloc
    return (buffers.set this (some a), inUse)
  | .write this data => do
    let a ← alive? buffers this
    let a ← a.write inUse data
    return (buffers.set this (some a), inUse)
  | .popout this len => do
    let a ← alive? buffers this
    let (_, a) ← a.popout len
    return (buffers.set this (some a), inUse)
  | .destroy this => do
    let a ← alive? buffers this
    let inUse ← a.destroy inUse
    return (buffers.set this none, inUse)

/-- `malloc` does not return a block that is in use. -/
def MallocPossible {size : Nat} (inUse : List Nat) (malloc : Malloc size) : Prop :=
  ∀ memory ∈ malloc, memory.1 ∉ inUse

/-- What an operation asks for: the buffers exist, there is memory to write to and as much of it
    as is written, and 0 bytes are not popped from a buffer of size 0. -/
def OpPossible (buffers : List (Option HeapBuffer)) (inUse : List Nat) : Op → Prop
  | .construct _ malloc => MallocPossible inUse malloc
  | .moveConstruct other => (alive? buffers other).isSome
  | .moveAssign this other => (alive? buffers this).isSome ∧ (alive? buffers other).isSome
  | .extend this _ malloc => (alive? buffers this).isSome ∧ MallocPossible inUse malloc
  | .write this data => ∃ a ∈ alive? buffers this, a.block.isSome ∧ a.fields.size ≠ 0 ∧
      data.length ≤ a.fields.continuousWriteBuffer.2
  | .popout this len => ∃ a ∈ alive? buffers this, a.fields.size ≠ 0 ∨ len ≠ 0
  | .destroy this => (alive? buffers this).isSome

instance {size : Nat} (inUse : List Nat) (malloc : Malloc size) :
    Decidable (MallocPossible inUse malloc) :=
  inferInstanceAs (Decidable (∀ memory ∈ malloc, _))

instance (buffers : List (Option HeapBuffer)) (inUse : List Nat) :
    DecidablePred (OpPossible buffers inUse) := fun op => by
  cases op <;> unfold OpPossible <;> infer_instance

/-- The block of a buffer that was not destroyed. -/
def held (place : Option HeapBuffer) : List Nat := (place.bind block).toList

/-- The blocks of all buffers. -/
def owned (buffers : List (Option HeapBuffer)) : List Nat := buffers.flatMap held

/-! ## Queues -/

/-- What a buffer is to its user: a queue, or nothing, with the size that was asked for. -/
inductive Value where
  | nothing (size : Nat)
  | queue (q : Fifo UInt8)

namespace Value

def new (size : Nat) (allocated : Bool) : Value :=
  if allocated ∧ size ≠ 0 then .queue (.empty (size - 1)) else .nothing size

def size : Value → Nat
  | .nothing size => size
  | .queue q => q.capacity + 1

def extend (newSize : Nat) (allocated : Bool) (v : Value) : Value :=
  if newSize ≤ v.size ∨ allocated = false then v
  else
    match v with
    | .nothing _ => .queue (.empty (newSize - 1))
    | .queue q => .queue (q.grow (newSize - 1))

def write (data : Bytes) : Value → Option Value
  | .nothing _ => none
  | .queue q => (q.push data).map .queue

def popout (len : Nat) : Value → Value
  | .nothing size => .nothing size
  | .queue q => .queue (if len ≤ q.items.length then q.pop len else q)

end Value

/-- One operation on the queues. -/
def valueStep (values : List (Option Value)) : Op → Option (List (Option Value))
  | .construct size malloc => some (values ++ [some (.new size malloc.isSome)])
  | .moveConstruct other => do
    let v ← alive? values other
    return values.set other (some (.nothing 0)) ++ [some v]
  | .moveAssign this other => do
    let _ ← alive? values this
    let v ← alive? values other
    if this = other then return values
    else return (values.set other (some (.nothing 0))).set this (some v)
  | .extend this newSize malloc => do
    let v ← alive? values this
    return values.set this (some (v.extend newSize malloc.isSome))
  | .write this data => do
    let v ← alive? values this
    let v ← v.write data
    return values.set this (some v)
  | .popout this len => do
    let v ← alive? values this
    return values.set this (some (v.popout len))
  | .destroy this => do
    let _ ← alive? values this
    return values.set this none

/-- The buffer shows the value. -/
inductive Shows : HeapBuffer → Value → Prop where
  | nothing (size : Nat) (buffer : Bytes) (block : Option Nat) (h : block = none ∨ size = 0) :
    Shows { fields := { size, buffer }, block } (.nothing size)
  | queue {fields : CircularBuffer} {q : Fifo UInt8} (h : fields.Refines q) (block : Nat) :
    Shows { fields, block := some block } (.queue q)

/-- Each buffer that was not destroyed shows its value. -/
def AllShow : List (Option HeapBuffer) → List (Option Value) → Prop :=
  List.Forall₂ (Option.Rel Shows)

/-! ## Places -/

section Places

variable {α β : Type} {R : α → β → Prop} {as : List (Option α)} {bs : List (Option β)}

theorem alive?_eq_some {i : Nat} {a : α} : alive? as i = some a ↔ as[i]? = some (some a) := by
  unfold alive?
  cases as[i]? with
  | none => simp
  | some place => simp

/-- Related places are alive together. -/
theorem alive?_of_forall₂ (h : List.Forall₂ (Option.Rel R) as bs) {i : Nat} {a : α}
    (ha : alive? as i = some a) : ∃ b, alive? bs i = some b ∧ R a b := by
  rw [alive?_eq_some] at ha
  simp only [alive?_eq_some]
  induction h generalizing i with
  | nil => cases ha
  | @cons x y as bs hxy _ ih =>
    cases i with
    | zero =>
      obtain rfl : x = some a := Option.some.inj ha
      cases hxy with
      | @some _ b hab => exact ⟨b, rfl, hab⟩
    | succ i => exact ih ha

theorem forall₂_set (h : List.Forall₂ (Option.Rel R) as bs) (i : Nat) {x : Option α}
    {y : Option β} (hxy : Option.Rel R x y) :
    List.Forall₂ (Option.Rel R) (as.set i x) (bs.set i y) := by
  induction h generalizing i with
  | nil => exact .nil
  | cons hhead htail ih =>
    cases i with
    | zero => exact .cons hxy htail
    | succ i => exact .cons hhead (ih i)

end Places

/-! ## Blocks -/

variable {inUse others : List Nat} {buffers : List (Option HeapBuffer)}

theorem held_some (a : HeapBuffer) : held (some a) = a.block.toList := rfl

/-- The block of one buffer, and those of the others. -/
theorem owned_perm {i : Nat} {a : HeapBuffer} (ha : alive? buffers i = some a) :
    (owned buffers).Perm (a.block.toList ++ owned (buffers.eraseIdx i)) :=
  perm_of_getElem? held (alive?_eq_some.mp ha)

theorem owned_set_perm {i : Nat} {a : HeapBuffer} (ha : alive? buffers i = some a)
    (x : Option HeapBuffer) :
    (owned (buffers.set i x)).Perm (held x ++ owned (buffers.eraseIdx i)) := by
  obtain ⟨hi, -⟩ := List.getElem?_eq_some_iff.mp (alive?_eq_some.mp ha)
  exact perm_set held hi x

/-- A buffer that stays in its place with its block. -/
theorem balanced_set (h : Balanced inUse (owned buffers) others) {i : Nat} {a b : HeapBuffer}
    (ha : alive? buffers i = some a) (hblock : b.block = a.block) :
    Balanced inUse (owned (buffers.set i (some b))) others := by
  apply h.congr
  have hset := owned_set_perm ha (some b)
  rw [held_some, hblock] at hset
  exact (owned_perm ha).trans hset.symm

/-- The block of a buffer is freed, and another one takes its place. -/
theorem balanced_free {rs : List Nat} (h : Balanced inUse (rs ++ owned buffers) others)
    {i : Nat} {a : HeapBuffer} (ha : alive? buffers i = some a) {x : Option HeapBuffer}
    (hx : held x = rs) :
    ∃ inUse', free inUse a.block = some inUse' ∧
      Balanced inUse' (owned (buffers.set i x)) others := by
  have hperm : (rs ++ owned buffers).Perm
      (a.block.toList ++ (held x ++ owned (buffers.eraseIdx i))) := by
    -- `rs` takes the place of the block of `a`, which comes to the front
    rw [hx]
    have hleft := (owned_perm ha).append_left rs
    apply hleft.trans
    rw [← List.append_assoc, ← List.append_assoc]
    exact List.perm_append_comm.append_right _
  obtain ⟨inUse', hfree, h'⟩ := h.releaseAll hperm
  exact ⟨inUse', hfree, h'.congr (owned_set_perm ha x).symm⟩

/-- What `malloc` returns is one more block. -/
theorem balanced_malloc (h : Balanced inUse (owned buffers) others) {block : Nat}
    (hblock : block ∉ inUse) : Balanced (block :: inUse) ([block] ++ owned buffers) others :=
  h.acquire ⟨List.nodup_singleton block, fun _ hr => List.mem_singleton.mp hr ▸ hblock⟩

theorem Accessible.of_alive (h : Balanced inUse (owned buffers) others) {i : Nat}
    {a : HeapBuffer} (ha : alive? buffers i = some a) {block : Nat}
    (hblock : a.block = some block) : a.Accessible inUse := by
  refine ⟨block, hblock, h.mem ((owned_perm ha).mem_iff.mpr ?_)⟩
  rw [hblock]
  exact List.mem_append_left _ (List.mem_singleton_self block)

theorem Shows.isSome_block {a : HeapBuffer} {v : Value} (h : Shows a v)
    (hlength : 0 < a.fields.length) : ∃ block, a.block = some block := by
  cases h with
  | nothing size buffer block h => exact absurd hlength (Nat.lt_irrefl 0)
  | queue h block => exact ⟨block, rfl⟩

private theorem balanced_construct (h : Balanced inUse (owned buffers) others) {size : Nat}
    {malloc : Malloc size} (hmalloc : MallocPossible inUse malloc) :
    Balanced (new inUse size malloc).2
      (owned (buffers ++ [some (new inUse size malloc).1])) others := by
  have howned : ∀ a : HeapBuffer,
      owned (buffers ++ [some a]) = owned buffers ++ a.block.toList := by
    intro a
    simp [owned, held]
  rw [howned]
  -- a failing `malloc` gives the new buffer no memory to own
  cases malloc with
  | none =>
    show Balanced inUse (owned buffers ++ []) others
    rw [List.append_nil]
    exact h
  | some memory =>
    exact (balanced_malloc h (hmalloc memory rfl)).congr List.perm_append_comm

/-- The block of a buffer that is moved from is held by no place. -/
private theorem balanced_movedFrom (h : Balanced inUse (owned buffers) others) {i : Nat}
    {b : HeapBuffer} (hb : alive? buffers i = some b) :
    Balanced inUse (b.block.toList ++ owned (buffers.set i (some movedFrom))) others := by
  have hset := owned_set_perm hb (some movedFrom)
  exact h.congr ((owned_perm hb).trans (hset.symm.append_left b.block.toList))

private theorem balanced_extend {values : List (Option Value)} (hshow : AllShow buffers values)
    (h : Balanced inUse (owned buffers) others) {i : Nat} {a : HeapBuffer}
    (ha : alive? buffers i = some a) {newSize : Nat} {malloc : Malloc newSize}
    (hmalloc : MallocPossible inUse malloc) :
    ∃ r, a.extend inUse newSize malloc = some r ∧
      Balanced r.2.2 (owned (buffers.set i (some r.2.1))) others := by
  unfold extend
  split
  · exact ⟨_, rfl, balanced_set h ha rfl⟩
  cases malloc with
  | none => exact ⟨_, rfl, balanced_set h ha rfl⟩
  | some memory =>
    obtain ⟨block, memory⟩ := memory
    have hgrown := balanced_malloc h (hmalloc _ rfl)
    -- what is copied is in the block of the buffer
    have hcopy : ¬ (0 < a.fields.length ∧ ¬ a.Accessible (block :: inUse)) := by
      intro ⟨hlength, hno⟩
      obtain ⟨v, -, hv⟩ := alive?_of_forall₂ hshow ha
      obtain ⟨old, hold⟩ := hv.isSome_block hlength
      obtain ⟨old, hold, hmem⟩ := Accessible.of_alive h ha hold
      exact hno ⟨old, hold, List.mem_cons_of_mem block hmem⟩
    obtain ⟨inUse', hfree, h'⟩ := balanced_free hgrown ha
      (x := some { fields := (a.fields.extend newSize (some memory)).2, block := some block }) rfl
    refine ⟨((a.fields.extend newSize (some memory)).1, _, inUse'), ?_, h'⟩
    simp only [if_neg hcopy, hfree, Option.bind_eq_bind, Option.bind_some]
    rfl

/-- **No fault.** An operation frees and touches only what is in use, and the buffers hold their
    blocks afterwards. -/
theorem step_balanced {values : List (Option Value)} (hshow : AllShow buffers values)
    (h : Balanced inUse (owned buffers) others) {op : Op} (hop : OpPossible buffers inUse op) :
    ∃ s', step buffers inUse op = some s' ∧ Balanced s'.2 (owned s'.1) others := by
  cases op with
  | construct size malloc => exact ⟨_, rfl, balanced_construct h hop⟩
  | moveConstruct other =>
    obtain ⟨b, hb⟩ := Option.isSome_iff_exists.mp hop
    simp only [step, hb, Option.bind_eq_bind, Option.bind_some]
    refine ⟨_, rfl, (balanced_movedFrom h hb).congr ?_⟩
    have howned : owned (buffers.set other (some movedFrom) ++ [some b]) =
        owned (buffers.set other (some movedFrom)) ++ b.block.toList := by
      simp [owned, held]
    show List.Perm _ (owned (buffers.set other (some movedFrom) ++ [some b]))
    rw [howned]
    exact List.perm_append_comm
  | moveAssign this other =>
    obtain ⟨a, ha⟩ := Option.isSome_iff_exists.mp hop.1
    obtain ⟨b, hb⟩ := Option.isSome_iff_exists.mp hop.2
    simp only [step, ha, hb, Option.bind_eq_bind, Option.bind_some]
    split
    · exact ⟨_, rfl, h⟩
    · rename_i hne
      -- the buffer that is assigned to is another one, and still has its own block
      have ha' : alive? (buffers.set other (some movedFrom)) this = some a := by
        rw [alive?_eq_some, List.getElem?_set_ne (Ne.symm hne)]
        exact alive?_eq_some.mp ha
      obtain ⟨inUse', hfree, h'⟩ := balanced_free (balanced_movedFrom h hb) ha' (held_some b)
      simp only [moveAssign, hfree, Option.bind_eq_bind, Option.bind_some]
      exact ⟨_, rfl, h'⟩
  | extend this newSize malloc =>
    obtain ⟨a, ha⟩ := Option.isSome_iff_exists.mp hop.1
    obtain ⟨r, hr, h'⟩ := balanced_extend hshow h ha hop.2
    simp only [step, ha, hr, Option.bind_eq_bind, Option.bind_some]
    exact ⟨_, rfl, h'⟩
  | write this data =>
    obtain ⟨a, ha, hblock, -, hdata⟩ := hop
    obtain ⟨block, hblock⟩ := Option.isSome_iff_exists.mp hblock
    have haccess := Accessible.of_alive h ha hblock
    simp only [step, Option.mem_def.mp ha, write, if_pos (And.intro haccess hdata),
      Option.bind_eq_bind, Option.bind_some]
    exact ⟨_, rfl, balanced_set h ha rfl⟩
  | popout this len =>
    obtain ⟨a, ha, hsize⟩ := hop
    obtain ⟨v, -, hv⟩ := alive?_of_forall₂ hshow ha
    have hlength : ¬ (len ≤ a.fields.length ∧ a.fields.size = 0) := by
      intro ⟨hlen, hzero⟩
      cases hv with
      | nothing size buffer block h =>
        have hnone : len ≤ 0 := hlen
        omega
      | queue h block =>
        have hlt := h.valid.readPos_lt
        dsimp only at hzero
        omega
    simp only [step, Option.mem_def.mp ha, popout, if_neg hlength, Option.bind_eq_bind,
      Option.bind_some]
    exact ⟨_, rfl, balanced_set h ha rfl⟩
  | destroy this =>
    obtain ⟨a, ha⟩ := Option.isSome_iff_exists.mp hop
    have hnothing : Balanced inUse ([] ++ owned buffers) others := h
    obtain ⟨inUse', hfree, h'⟩ := balanced_free hnothing ha (x := none) rfl
    simp only [step, ha, destroy, hfree, Option.bind_eq_bind, Option.bind_some]
    exact ⟨_, rfl, h'⟩

/-! ## Values -/

/-- New memory is an empty queue. -/
private theorem refines_new {size : Nat} (memory : Vector UInt8 size) (hsize : 0 < size) :
    (CircularBuffer.new memory.toList).Refines (.empty (size - 1)) := by
  have hlength : memory.toList.length = size := Vector.length_toList
  refine ⟨new_valid (by omega), ?_, ?_⟩
  · rw [contents_of_le (Nat.le_refl _)]
    exact List.take_zero
  · show memory.toList.length - 1 = size - 1
    rw [hlength]

private theorem shows_new (size : Nat) (malloc : Malloc size) :
    Shows (new inUse size malloc).1 (.new size malloc.isSome) := by
  cases malloc with
  | none => exact .nothing size [] none (.inl rfl)
  | some memory =>
    obtain ⟨block, memory⟩ := memory
    show Shows { fields := CircularBuffer.new memory.toList, block := some block } _
    by_cases hsize : size = 0
    · subst hsize
      rw [List.length_eq_zero_iff.mp memory.length_toList]
      exact .nothing 0 [] (some block) (.inr rfl)
    · rw [Value.new, if_pos ⟨rfl, hsize⟩]
      exact .queue (refines_new memory (Nat.pos_of_ne_zero hsize)) block

private theorem shows_movedFrom : Shows movedFrom (.nothing 0) :=
  .nothing 0 [] none (.inl rfl)

private theorem Shows.write {a b : HeapBuffer} {v : Value} (h : Shows a v) {data : Bytes}
    (hsize : a.fields.size ≠ 0) (hblock : a.block.isSome) (hwrite : a.write inUse data = some b) :
    ∃ v', v.write data = some v' ∧ Shows b v' := by
  unfold HeapBuffer.write at hwrite
  obtain ⟨⟨-, hdata⟩, heq⟩ := Option.ite_none_right_eq_some.mp hwrite
  obtain rfl := Option.some.inj heq
  cases h with
  | nothing size buffer block h =>
    -- a buffer with nothing in it has no memory, or size 0
    rcases h with rfl | rfl
    · cases hblock
    · exact absurd rfl hsize
  | @queue fields q h block =>
    have hstep : CircularBuffer.step fields (.write data) = some (fields.writeContinuous data) :=
      if_pos hdata
    obtain ⟨q', hq', h'⟩ := h.step hstep
    exact ⟨_, congrArg (Option.map _) hq', .queue h' block⟩

private theorem Shows.popout {a : HeapBuffer} {v : Value} (h : Shows a v) {len : Nat}
    {r : Nat × HeapBuffer} (hpop : a.popout len = some r) : Shows r.2 (v.popout len) := by
  unfold HeapBuffer.popout at hpop
  obtain ⟨-, heq⟩ := Option.ite_none_left_eq_some.mp hpop
  obtain rfl := Option.some.inj heq
  cases h with
  | nothing size buffer block h =>
    -- the position stays at 0
    have hsame : (({ size, buffer } : CircularBuffer).popout len).2 = { size, buffer } := by
      unfold CircularBuffer.popout
      split
      · rfl
      · rename_i hlen
        have hzero : len = 0 := by
          have hle : ¬ 0 < len := hlen
          omega
        subst hzero
        simp
    show Shows { fields := (CircularBuffer.popout _ len).2, block } _
    rw [hsame]
    exact .nothing size buffer block h
  | @queue fields q h block =>
    have hstep : CircularBuffer.step fields (.popout len) = some (fields.popout len).2 := rfl
    obtain ⟨q', hq', h'⟩ := h.step hstep
    cases hq'
    exact .queue h' block

private theorem Shows.size {a : HeapBuffer} {v : Value} (h : Shows a v) :
    a.fields.size = v.size := by
  cases h with
  | nothing size buffer block h => rfl
  | @queue fields q h block =>
    have hcap := h.capacity
    have hlt := h.valid.readPos_lt
    unfold CircularBuffer.capacity at hcap
    show fields.size = q.capacity + 1
    omega

/-- `Extend` of a buffer with nothing in it. -/
private theorem extend_nothing {size newSize : Nat} (hlt : size < newSize) (buffer : Bytes)
    (memory : Vector UInt8 newSize) :
    (({ size, buffer } : CircularBuffer).extend newSize (some memory)).2 =
      CircularBuffer.new memory.toList := by
  have hlength : memory.toList.length = newSize := Vector.length_toList
  unfold CircularBuffer.extend CircularBuffer.new
  rw [if_neg (Nat.not_le.mpr hlt), hlength]
  rfl

private theorem Shows.extend {a : HeapBuffer} {v : Value} (h : Shows a v) {newSize : Nat}
    {malloc : Malloc newSize} {r : Bool × HeapBuffer × List Nat}
    (hextend : a.extend inUse newSize malloc = some r) :
    Shows r.2.1 (v.extend newSize malloc.isSome) := by
  unfold HeapBuffer.extend at hextend
  unfold Value.extend
  rw [← h.size]
  split at hextend
  · rename_i hle
    obtain rfl := Option.some.inj hextend
    rw [if_pos (.inl hle)]
    exact h
  · rename_i hlt
    cases malloc with
    | none =>
      obtain rfl := Option.some.inj hextend
      rw [if_pos (.inr rfl)]
      exact h
    | some memory =>
      obtain ⟨block, memory⟩ := memory
      dsimp only at hextend
      split at hextend
      · cases hextend
      obtain ⟨inUse', -, heq⟩ := Option.bind_eq_some_iff.mp hextend
      obtain rfl := Option.some.inj heq
      rw [if_neg (by simp [hlt])]
      cases h with
      | nothing size buffer old h =>
        have hlt' : size < newSize := Nat.not_le.mp hlt
        -- a buffer without memory becomes an empty queue
        show Shows { fields := (CircularBuffer.extend _ newSize (some memory)).2, block } _
        rw [extend_nothing hlt']
        exact .queue (refines_new memory (by omega)) block
      | @queue fields q h old =>
        -- a buffer with memory keeps its contents, as `Extend` does without moves
        have hstep : CircularBuffer.step fields (.extend newSize memory) =
            some (fields.extend newSize (some memory)).2 := rfl
        obtain ⟨q', hq', h'⟩ := h.step hstep
        cases hq'
        exact .queue h' block

variable {values : List (Option Value)}

/-- **The operations on the queues** are what the operations do to the buffers. -/
theorem step_shows (hshow : AllShow buffers values) {op : Op} (hop : OpPossible buffers inUse op)
    {s' : List (Option HeapBuffer) × List Nat} (hstep : step buffers inUse op = some s') :
    ∃ values', valueStep values op = some values' ∧ AllShow s'.1 values' := by
  cases op with
  | construct size malloc =>
    obtain rfl := Option.some.inj hstep
    exact ⟨_, rfl, List.rel_append hshow (.cons (.some (shows_new size malloc)) .nil)⟩
  | moveConstruct other =>
    obtain ⟨b, hb, heq⟩ := Option.bind_eq_some_iff.mp hstep
    obtain rfl := Option.some.inj heq
    obtain ⟨v, hv, hshows⟩ := alive?_of_forall₂ hshow hb
    simp only [valueStep, hv, Option.bind_eq_bind, Option.bind_some]
    -- nothing is left in the place of the other buffer, and its queue comes to the end
    have hset := forall₂_set hshow other (.some shows_movedFrom)
    exact ⟨_, rfl, List.rel_append hset (.cons (.some hshows) .nil)⟩
  | moveAssign this other =>
    obtain ⟨a, ha, hrest⟩ := Option.bind_eq_some_iff.mp hstep
    obtain ⟨b, hb, hrest⟩ := Option.bind_eq_some_iff.mp hrest
    obtain ⟨u, hu, -⟩ := alive?_of_forall₂ hshow ha
    obtain ⟨v, hv, hshows⟩ := alive?_of_forall₂ hshow hb
    simp only [valueStep, hu, hv, Option.bind_eq_bind, Option.bind_some]
    split at hrest
    · -- a buffer is assigned to itself
      rename_i heq
      obtain rfl := Option.some.inj hrest
      exact ⟨_, if_pos heq, hshow⟩
    · rename_i hne
      obtain ⟨r, hr, heq⟩ := Option.bind_eq_some_iff.mp hrest
      obtain ⟨inUse', -, hmoved⟩ := Option.bind_eq_some_iff.mp hr
      obtain rfl := Option.some.inj hmoved
      obtain rfl := Option.some.inj heq
      have hset := forall₂_set hshow other (.some shows_movedFrom)
      exact ⟨_, if_neg hne, forall₂_set hset this (.some hshows)⟩
  | extend this newSize malloc =>
    obtain ⟨a, ha, hrest⟩ := Option.bind_eq_some_iff.mp hstep
    obtain ⟨r, hr, heq⟩ := Option.bind_eq_some_iff.mp hrest
    obtain rfl := Option.some.inj heq
    obtain ⟨v, hv, hshows⟩ := alive?_of_forall₂ hshow ha
    simp only [valueStep, hv, Option.bind_eq_bind, Option.bind_some]
    exact ⟨_, rfl, forall₂_set hshow this (.some (hshows.extend hr))⟩
  | write this data =>
    obtain ⟨a, ha, hrest⟩ := Option.bind_eq_some_iff.mp hstep
    obtain ⟨b, hb, heq⟩ := Option.bind_eq_some_iff.mp hrest
    obtain rfl := Option.some.inj heq
    obtain ⟨a', ha', hblock, hsize, -⟩ := hop
    obtain rfl : a' = a := Option.some.inj (ha'.symm.trans ha)
    obtain ⟨v, hv, hshows⟩ := alive?_of_forall₂ hshow ha
    obtain ⟨v', hv', hshows'⟩ := hshows.write hsize hblock hb
    simp only [valueStep, hv, hv', Option.bind_eq_bind, Option.bind_some]
    exact ⟨_, rfl, forall₂_set hshow this (.some hshows')⟩
  | popout this len =>
    obtain ⟨a, ha, hrest⟩ := Option.bind_eq_some_iff.mp hstep
    obtain ⟨r, hr, heq⟩ := Option.bind_eq_some_iff.mp hrest
    obtain rfl := Option.some.inj heq
    obtain ⟨v, hv, hshows⟩ := alive?_of_forall₂ hshow ha
    simp only [valueStep, hv, Option.bind_eq_bind, Option.bind_some]
    exact ⟨_, rfl, forall₂_set hshow this (.some (hshows.popout hr))⟩
  | destroy this =>
    obtain ⟨a, ha, hrest⟩ := Option.bind_eq_some_iff.mp hstep
    obtain ⟨inUse', -, heq⟩ := Option.bind_eq_some_iff.mp hrest
    obtain rfl := Option.some.inj heq
    obtain ⟨v, hv, -⟩ := alive?_of_forall₂ hshow ha
    simp only [valueStep, hv, Option.bind_eq_bind, Option.bind_some]
    exact ⟨_, rfl, forall₂_set hshow this .none⟩

/-- **Moves.** A program makes, moves, uses and destroys buffers, each operation where it is
    possible, while the rest of the process uses the heap. No block is freed twice, or touched
    after it was freed; the blocks in use are those of the buffers that were not destroyed and
    those of the rest of the process; and each buffer shows the queue that the same operations on
    queues put in its place. -/
theorem moves (inUse : List Nat) (hnodup : inUse.Nodup) (labels : List (Label Op Nat))
    (hpossible : Runs.Along (Ownership.step step) (Possible OpPossible) ⟨[], inUse, inUse⟩
      labels) :
    ∃ w, labels.foldlM (Ownership.step step) ⟨[], inUse, inUse⟩ = some w ∧
      Balanced w.inUse (owned w.state) w.others ∧
      ∃ values, (labels.flatMap Label.ownSteps).foldlM valueStep [] = some values ∧
        AllShow w.state values := by
  have hstep : ∀ buffers inUse others op, (∃ values, AllShow buffers values) →
      Balanced inUse (owned buffers) others → OpPossible buffers inUse op →
      ∃ s', step buffers inUse op = some s' ∧ (∃ values, AllShow s'.1 values) ∧
        Balanced s'.2 (owned s'.1) others := by
    intro buffers inUse others op ⟨values, hshow⟩ h hop
    obtain ⟨s', hs', h'⟩ := step_balanced hshow h hop
    obtain ⟨values', -, hshow'⟩ := step_shows hshow hop hs'
    exact ⟨s', hs', ⟨values', hshow'⟩, h'⟩
  have hempty : Balanced inUse (owned []) inUse := ⟨List.Perm.refl _, hnodup⟩
  have hnil : AllShow [] [] := .nil
  obtain ⟨w, hrun, -, hbalanced⟩ := Ownership.run hstep ⟨[], hnil⟩ hempty hpossible
  -- the queues, by the simulation of the steps that are the program's own
  have hvalue : ∀ buffers inUse op values s', AllShow buffers values →
      OpPossible buffers inUse op → step buffers inUse op = some s' →
      ∃ values', valueStep values (id op) = some values' ∧ AllShow s'.1 values' :=
    fun _ _ _ _ _ hshow hop hs' => step_shows hshow hop hs'
  obtain ⟨values, hvalues, hshow⟩ :=
    Ownership.simulation id valueStep hvalue hnil hpossible hrun
  rw [List.map_id] at hvalues
  exact ⟨w, hrun, hbalanced, values, hvalues, hshow⟩

/-- A buffer that is written to is moved into one that has memory of its own, and from there
    into a new one; what is left of it is grown again, and the others are destroyed. -/
private def program : List (Label Op Nat) :=
  [.own (.construct 4 (some (7, .replicate 4 0))), .own (.construct 2 (some (8, .replicate 2 0))),
    .own (.construct 9 none), .own (.write 0 [1, 2, 3]), .own (.popout 0 1), .acquire [5],
    .own (.moveAssign 1 0), .own (.moveAssign 1 1), .own (.moveConstruct 1), .release 5,
    .own (.extend 0 3 (some (5, .replicate 3 0))), .own (.write 0 [4]), .own (.write 3 [6]),
    .own (.destroy 1), .own (.destroy 2)]

theorem moves_program :
    ∃ w, program.foldlM (Ownership.step step) ⟨[], [1, 2], [1, 2]⟩ = some w ∧
      Balanced w.inUse (owned w.state) w.others ∧
      ∃ values, (program.flatMap Label.ownSteps).foldlM valueStep [] = some values ∧
        AllShow w.state values :=
  moves [1, 2] (by decide) program (by decide +kernel)

end Httpoll.Native.HeapBuffer
