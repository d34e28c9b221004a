import Mathlib.Data.List.Basic

/-!
# Buffers with checked access

A program that accesses a buffer through a pointer may reach outside of it. Here every
access is checked: it gives the element, or the fault that the program commits.

## Key results

- `set_append`: stores that fill a buffer from its start
- `load_of_le`, `load_of_lt`: a load succeeds exactly when its range is in the buffer
- `scan_of_mem`: a scan succeeds when the buffer holds what it looks for
- `mapRange_of_le`, `mapRange_of_lt`: the same for a loop that updates a range in place
-/

namespace CheckedBuffer

/-- An access at `index`, to a buffer of `size` elements that has none there. -/
inductive Fault where
  | outOfBounds (index size : Nat)
  deriving Repr, DecidableEq

variable {α : Type _}

/-- `buf[i]` -/
def get (buf : List α) (i : Nat) : Except Fault α :=
  match buf[i]? with
  | some a => .ok a
  | none => .error (.outOfBounds i buf.length)

/-- `buf[i] = a` -/
def set (buf : List α) (i : Nat) (a : α) : Except Fault (List α) :=
  if i < buf.length then .ok (buf.set i a) else .error (.outOfBounds i buf.length)

/-- The `n` elements from index `off` on, in the order of their indices. -/
def load (buf : List α) (off : Nat) : Nat → Except Fault (List α)
  | 0 => .ok []
  | n + 1 => do
    let a ← get buf off
    let as ← load buf (off + 1) n
    .ok (a :: as)

/-- The loop `for (; n > 0; --n, ++i) buf[off + i] = f(i, buf[off + i])`. -/
def mapRange (f : Nat → α → α) (off : Nat) : (n i : Nat) → List α → Except Fault (List α)
  | 0, _, buf => .ok buf
  | n + 1, i, buf => do
    let a ← get buf (off + i)
    mapRange f off n (i + 1) (buf.set (off + i) (f i a))

/-- The loop of `scan`, over the elements from index `i` on. -/
def scanFrom (pred : α → Bool) (size : Nat) : List α → Nat → Except Fault (List α)
  | [], i => .error (.outOfBounds i size)
  | a :: rest, i =>
    if pred a then .ok []
    else do
      let as ← scanFrom pred size rest (i + 1)
      .ok (a :: as)

/-- The loop `while (!pred(buf[off])) ++off;`: the elements that it goes past. -/
def scan (pred : α → Bool) (buf : List α) (off : Nat) : Except Fault (List α) :=
  scanFrom pred buf.length (buf.drop off) off

/-! ## Single accesses -/

theorem get_of_lt {buf : List α} {i : Nat} (h : i < buf.length) : get buf i = .ok buf[i] := by
  simp only [get, List.getElem?_eq_getElem h]

theorem get_of_le {buf : List α} {i : Nat} (h : buf.length ≤ i) :
    get buf i = .error (.outOfBounds i buf.length) := by
  simp only [get, List.getElem?_eq_none h]

/-- An element behind a first part of the buffer. -/
theorem get_append {pre s : List α} {i : Nat} {a : α} (h : s[i]? = some a) :
    get (pre ++ s) (pre.length + i) = .ok a := by
  rw [get, List.getElem?_append_right (by omega), Nat.add_sub_cancel_left, h]

/-- A store right behind what is written already, `out`, of a buffer that was `buf`. -/
theorem set_append {buf out : List α} (a : α) (h : out.length < buf.length) :
    set (out ++ buf.drop out.length) out.length a =
      .ok ((out ++ [a]) ++ buf.drop (out ++ [a]).length) := by
  have hfit : out.length < (out ++ buf.drop out.length).length := by
    rw [List.length_append, List.length_drop]
    omega
  rw [set, if_pos hfit, List.set_append_right _ _ (Nat.le_refl _), Nat.sub_self,
    List.drop_eq_getElem_cons h, List.set_cons_zero, List.length_append, List.length_singleton,
    List.append_assoc, List.singleton_append]

/-! ## Loads -/

theorem load_of_le {buf : List α} {off n : Nat} (h : off + n ≤ buf.length) :
    load buf off n = .ok ((buf.drop off).take n) := by
  induction n generalizing off with
  | zero => simp [load]
  | succ n ih =>
    have hoff : off < buf.length := by omega
    simp only [load, get_of_lt hoff, ih (show off + 1 + n ≤ buf.length by omega), bind,
      Except.bind, List.drop_eq_getElem_cons hoff, List.take_succ_cons]

theorem load_of_lt (buf : List α) (off : Nat) {n : Nat} (hn : 0 < n)
    (h : buf.length < off + n) :
    ∃ i, load buf off n = .error (.outOfBounds i buf.length) := by
  induction n generalizing off with
  | zero => omega
  | succ n ih =>
    rcases Nat.lt_or_ge off buf.length with hoff | hoff
    · -- the first element is there, so the fault comes later
      obtain ⟨i, hi⟩ := ih (off + 1) (by omega) (by omega)
      exact ⟨i, by simp only [load, get_of_lt hoff, hi, bind, Except.bind]⟩
    · exact ⟨off, by simp only [load, get_of_le hoff, bind, Except.bind]⟩

/-- What is loaded is a part of the buffer. -/
theorem length_le_of_load {buf xs : List α} {off n : Nat} (h : load buf off n = .ok xs) :
    xs.length ≤ buf.length := by
  rcases Nat.lt_or_ge buf.length (off + n) with hlt | hle
  · cases n with
    | zero => cases h; exact Nat.zero_le _
    | succ n =>
      obtain ⟨i, hi⟩ := load_of_lt buf off (Nat.succ_pos n) hlt
      rw [hi] at h
      cases h
  · rw [load_of_le hle] at h
    cases h
    rw [List.length_take, List.length_drop]
    omega

/-! ## Scans -/

/-- A scan stays in the buffer when there is an element for it to stop at. -/
theorem scan_of_mem {pred : α → Bool} {buf : List α} {off : Nat}
    (h : ∃ a ∈ buf.drop off, pred a = true) :
    scan pred buf off = .ok ((buf.drop off).takeWhile fun a => !pred a) := by
  unfold scan
  -- the induction is on what is left to scan; the size of the buffer stays
  generalize buf.length = size
  generalize buf.drop off = l at h ⊢
  induction l generalizing off with
  | nil => simp at h
  | cons a l ih =>
    cases ha : pred a with
    | true => simp [scanFrom, ha]
    | false =>
      -- the element to stop at is further on
      have hrest : ∃ a ∈ l, pred a = true := by
        obtain ⟨b, hb, hpred⟩ := h
        rcases List.mem_cons.mp hb with rfl | hb
        · exact absurd (ha.symm.trans hpred) (by decide)
        · exact ⟨b, hb, hpred⟩
      simp [scanFrom, ha, ih hrest, bind, Except.bind]

/-! ## Updates in place -/

theorem mapRange_of_le {f : Nat → α → α} {off n i : Nat} {buf : List α}
    (h : off + i + n ≤ buf.length) :
    mapRange f off n i buf = .ok (buf.take (off + i) ++
      (((buf.drop (off + i)).take n).mapIdx fun j a => f (i + j) a) ++
        buf.drop (off + i + n)) := by
  induction n generalizing i buf with
  | zero => simp [mapRange]
  | succ n ih =>
    have hi : off + i < buf.length := by omega
    have hset : off + (i + 1) + n ≤ (buf.set (off + i) (f i buf[off + i])).length := by
      rw [List.length_set]; omega
    simp only [mapRange, get_of_lt hi, bind, Except.bind, ih hset]
    congr 1
    -- the element that is set now comes to the front part, which the other steps leave alone
    have htake : (buf.set (off + i) (f i buf[off + i])).take (off + (i + 1)) =
        buf.take (off + i) ++ [f i buf[off + i]] := by
      rw [← Nat.add_assoc, List.take_set, List.take_succ_eq_append_getElem hi, List.set_append]
      simp [Nat.min_eq_left (Nat.le_of_lt hi)]
    have hdrop : ∀ k, (buf.set (off + i) (f i buf[off + i])).drop (off + i + 1 + k) =
        buf.drop (off + i + 1 + k) := fun k => by
      rw [List.drop_set_of_lt (by omega)]
    have hidx : (fun j a => f (i + (j + 1)) a) = fun j a => f (i + 1 + j) a := by
      funext j a
      rw [Nat.add_comm j 1, Nat.add_assoc]
    rw [htake, show off + (i + 1) = off + i + 1 + 0 by omega, hdrop 0,
      show off + i + 1 + 0 + n = off + i + 1 + n by omega, hdrop n,
      List.drop_eq_getElem_cons hi, List.take_succ_cons, List.mapIdx_cons, hidx]
    simp only [List.append_assoc, Nat.add_zero, List.nil_append, List.cons_append,
      show off + i + (n + 1) = off + i + 1 + n by omega]

theorem mapRange_of_lt (f : Nat → α → α) (off : Nat) {n : Nat} (i : Nat) (buf : List α)
    (hn : 0 < n) (h : buf.length < off + i + n) :
    ∃ k, mapRange f off n i buf = .error (.outOfBounds k buf.length) := by
  induction n generalizing i buf with
  | zero => omega
  | succ n ih =>
    rcases Nat.lt_or_ge (off + i) buf.length with hi | hi
    · obtain ⟨k, hk⟩ := ih (i + 1) (buf.set (off + i) (f i buf[off + i])) (by omega)
        (by rw [List.length_set]; omega)
      rw [List.length_set] at hk
      exact ⟨k, by simp only [mapRange, get_of_lt hi, hk, bind, Except.bind]⟩
    · exact ⟨off + i, by simp only [mapRange, get_of_le hi, bind, Except.bind]⟩

theorem length_of_mapRange {f : Nat → α → α} {off n i : Nat} {buf buf' : List α}
    (h : mapRange f off n i buf = .ok buf') : buf'.length = buf.length := by
  induction n generalizing i buf with
  | zero => cases h; rfl
  | succ n ih =>
    simp only [mapRange, bind, Except.bind] at h
    split at h
    · cases h
    · rw [ih h, List.length_set]

end CheckedBuffer
