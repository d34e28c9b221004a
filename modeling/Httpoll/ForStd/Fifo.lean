import Mathlib.Data.List.Basic

/-!
# Bounded FIFO queues

A queue of at most `capacity` items, in the order in which they were put in. A queue of
bytes is also what a kernel pipe is: a transfer into it moves as many bytes as there is
room for, or fewer, so a transfer takes the limit that the kernel sets.

## Key results

- `TakesAll.offer_items`: an offer that fits is taken as a whole
- `offer_isPrefix`: what is taken of an offer is a prefix of it
-/

/-- A queue that holds no more than its capacity. -/
structure Fifo (α : Type _) where
  items : List α
  capacity : Nat
  fits : items.length ≤ capacity
  deriving DecidableEq

namespace Fifo

variable {α : Type _}

/-- A queue with nothing in it. -/
def empty (capacity : Nat) : Fifo α := ⟨[], capacity, Nat.zero_le _⟩

/-- How many more items the queue can take. -/
def room (q : Fifo α) : Nat := q.capacity - q.items.length

/-- Put `xs` in, if there is room for all of it. -/
def push (q : Fifo α) (xs : List α) : Option (Fifo α) :=
  if h : q.items.length + xs.length ≤ q.capacity then
    some ⟨q.items ++ xs, q.capacity, by rw [List.length_append]; exact h⟩
  else none

/-- Take the first `n` items out. -/
def pop (q : Fifo α) (n : Nat) : Fifo α :=
  ⟨q.items.drop n, q.capacity, by rw [List.length_drop]; exact Nat.le_trans (Nat.sub_le _ _) q.fits⟩

/-- The same items, with room for `capacity` if that is more than there was. -/
def grow (q : Fifo α) (capacity : Nat) : Fifo α :=
  ⟨q.items, max q.capacity capacity, Nat.le_trans q.fits (Nat.le_max_left _ _)⟩

/-- How much of the offer `xs` is taken, when `limit` is the most that the kernel moves. -/
def taken (q : Fifo α) (limit : Nat) (xs : List α) : Nat := min limit (min xs.length q.room)

/-- Put in as much of `xs` as is taken. -/
def offer (q : Fifo α) (limit : Nat) (xs : List α) : Fifo α :=
  ⟨q.items ++ xs.take (q.taken limit xs), q.capacity, by
    have hfits := q.fits
    rw [List.length_append, List.length_take]
    unfold taken room
    omega⟩

@[simp] theorem empty_items (capacity : Nat) : (empty capacity : Fifo α).items = [] := rfl

@[simp] theorem pop_items (q : Fifo α) (n : Nat) : (q.pop n).items = q.items.drop n := rfl

@[simp] theorem pop_capacity (q : Fifo α) (n : Nat) : (q.pop n).capacity = q.capacity := rfl

@[simp] theorem offer_capacity (q : Fifo α) (limit : Nat) (xs : List α) :
    (q.offer limit xs).capacity = q.capacity := rfl

@[simp] theorem offer_zero (q : Fifo α) (xs : List α) : (q.offer 0 xs).items = q.items := by
  simp [offer, taken]

theorem push_eq_some {q : Fifo α} {xs : List α} (h : xs.length ≤ q.room) :
    ∃ q', q.push xs = some q' ∧ q'.items = q.items ++ xs ∧ q'.capacity = q.capacity := by
  have hfits := q.fits
  unfold room at h
  refine ⟨⟨q.items ++ xs, q.capacity, by rw [List.length_append]; omega⟩, ?_, rfl, rfl⟩
  unfold push
  rw [dif_pos (by omega)]

/-- An empty queue takes nothing of an offer. -/
theorem offer_items_eq_nil {q : Fifo α} (hq : q.items = []) (limit : Nat)
    (xs : List α) :
    (q.offer limit xs).items = [] ↔ limit = 0 ∨ q.capacity = 0 ∨ xs = [] := by
  have htaken : q.taken limit xs = min limit (min xs.length q.capacity) := by
    rw [Fifo.taken, Fifo.room, hq, List.length_nil, Nat.sub_zero]
  show q.items ++ xs.take (q.taken limit xs) = [] ↔ _
  rw [hq, List.nil_append, List.take_eq_nil_iff, htaken, ← List.length_eq_zero_iff (l := xs)]
  omega

/-- There is room for all of `xs`, and the kernel moves as much. -/
def TakesAll (q : Fifo α) (limit : Nat) (xs : List α) : Prop :=
  xs.length ≤ limit ∧ xs.length ≤ q.room

instance (q : Fifo α) (limit : Nat) (xs : List α) : Decidable (q.TakesAll limit xs) :=
  inferInstanceAs (Decidable (_ ∧ _))

theorem TakesAll.taken {q : Fifo α} {limit : Nat} {xs : List α} (h : q.TakesAll limit xs) :
    q.taken limit xs = xs.length := by
  obtain ⟨hlimit, hroom⟩ := h
  unfold Fifo.taken
  omega

/-- An offer that fits, and that the kernel does not cut, is taken as a whole. -/
theorem TakesAll.offer_items {q : Fifo α} {limit : Nat} {xs : List α} (h : q.TakesAll limit xs) :
    (q.offer limit xs).items = q.items ++ xs := by
  simp only [offer, h.taken, List.take_length]

/-- What is taken of an offer is a prefix of it. -/
theorem offer_isPrefix (q : Fifo α) (limit : Nat) (xs : List α) :
    ∃ ys, ys <+: xs ∧ (q.offer limit xs).items = q.items ++ ys :=
  ⟨xs.take (q.taken limit xs), List.take_prefix _ _, rfl⟩

end Fifo
