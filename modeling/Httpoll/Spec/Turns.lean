import Httpoll.Spec.ProcessDataInLoops
import Httpoll.Spec.PushLineStates

/-!
# Runs of a connection

The server calls `ProcessDataIn` each time the connection is readable. When it returns
0 or 1 a handler is called with `partial_body_`, and may move it out. A run is any
sequence of such turns.

## Key results

- `Turns.invariant`: the induction rule for what reading and pushing preserve
- `Turns.history`: the parser is the fold of `PushLine` over the chunks pushed, and these,
  `buffer_` and the unread bytes make up the stream
-/

namespace Httpoll.Native.Connection

variable {σ : Type}

/-- One call of `ProcessDataIn` and what becomes of `partial_body_` after it. -/
structure Turn where
  ret : Int
  log : List Pushed
  /-- What `PopBody` gives the handler. -/
  popped : Bytes := []
  /-- What the handler leaves in `partial_body_`: nothing, when it moves it out. -/
  left : Bytes := []
  deriving DecidableEq

/-- The turns of a connection `c₀` on a socket `s₀`. -/
inductive Turns (c₀ : Connection σ) (s₀ : Socket) : List Turn → Connection σ → Socket → Prop where
  | nil : Turns c₀ s₀ [] c₀ s₀
  /-- No handler is called: the headers are not complete, or the connection is to be closed. -/
  | wait {ts c s ret c' s' log} (run : Turns c₀ s₀ ts c s)
    (h : c.processDataIn s = some (.returned ret c' s' log)) (hret : ret ≠ 0 ∧ ret ≠ 1) :
    Turns c₀ s₀ (ts ++ [{ ret := ret, log := log }]) c' s'
  /-- A handler is called. -/
  | handle {ts c s ret c' s' log} (run : Turns c₀ s₀ ts c s)
    (h : c.processDataIn s = some (.returned ret c' s' log)) (hret : ret = 0 ∨ ret = 1)
    (left : Bytes) :
    Turns c₀ s₀ (ts ++ [{ ret := ret, log := log, popped := c'.partialBody, left := left }])
      { c' with partialBody := left } s'

/-- Run `n` turns, with a handler that leaves `left body` of the body that it is given. -/
def serve (left : Bytes → Bytes) : Nat → Connection σ → Socket →
    Option (List Turn × Connection σ × Socket)
  | 0, c, s => some ([], c, s)
  | n + 1, c, s =>
    match serve left n c s with
    | none => none
    | some (ts, c, s) =>
      match c.processDataIn s with
      | some (.returned ret c' s' log) =>
        if ret = 0 ∨ ret = 1 then
          let l := left c'.partialBody
          some (ts ++ [{ ret := ret, log := log, popped := c'.partialBody, left := l }],
            { c' with partialBody := l }, s')
        else some (ts ++ [{ ret := ret, log := log }], c', s')
      | _ => none

/-- What `serve` computes is a run. -/
theorem turns_of_serve {left : Bytes → Bytes} {n : Nat} {c₀ c : Connection σ} {s₀ s : Socket}
    {ts : List Turn} (h : serve left n c₀ s₀ = some (ts, c, s)) : Turns c₀ s₀ ts c s := by
  induction n generalizing ts c s with
  | zero => cases h; exact .nil
  | succ n ih =>
    simp only [serve] at h
    split at h
    · cases h
    · rename_i ts₁ c₁ s₁ hrun
      split at h
      · rename_i ret c' s' log hcall
        split at h
        · rename_i hret; cases h; exact .handle (ih hrun) hcall hret _
        · rename_i hret; cases h; exact .wait (ih hrun) hcall (not_or.mp hret)
      · cases h

/-- A run that `serve` computes, with what is to be known of it. -/
theorem exists_turns_of_serve {α : Type} (left : Bytes → Bytes) (n : Nat) (c₀ : Connection σ)
    (s₀ : Socket) (f : List Turn × Connection σ × Socket → α) {x : α}
    (h : (serve left n c₀ s₀).map f = some x) :
    ∃ ts c s, Turns c₀ s₀ ts c s ∧ f (ts, c, s) = x := by
  obtain ⟨⟨ts, c, s⟩, hrun, hx⟩ := Option.map_eq_some_iff.mp h
  exact ⟨ts, c, s, turns_of_serve hrun, hx⟩

/-- The chunks that were pushed, in order. -/
def chunks (log : List Pushed) : List Bytes := log.map Pushed.chunk

@[simp] theorem chunks_nil : chunks [] = [] := rfl

@[simp] theorem chunks_append (log log' : List Pushed) :
    chunks (log ++ log') = chunks log ++ chunks log' :=
  List.map_append

@[simp] theorem chunks_pushedOf (c : Connection σ) (chunk : Bytes) :
    chunks [c.pushedOf chunk] = [chunk] := rfl

/-- All `PushLine` calls of a run. -/
def pushes (ts : List Turn) : List Pushed := ts.flatMap Turn.log

@[simp] theorem pushes_append_singleton (ts : List Turn) (t : Turn) :
    pushes (ts ++ [t]) = pushes ts ++ t.log := by
  simp [pushes]

/-! ## What holds of every run -/

/-- What is left of the answers of the socket. -/
theorem Turns.answers_suffix {c₀ c : Connection σ} {s₀ s : Socket} {ts : List Turn}
    (run : Turns c₀ s₀ ts c s) : s.answers <:+ s₀.answers := by
  have hcall : ∀ {c c' : Connection σ} {s s' : Socket} {ret log},
      c.processDataIn s = some (.returned ret c' s' log) → s'.answers <:+ s.answers := fun h =>
    ((CallOutline.ofInvariant (J := fun _ _ _ => True) (fun _ _ _ => trivial)
      (fun _ _ _ => trivial)).returned (fun _ _ => trivial) trivial h).2
  induction run with
  | nil => exact List.suffix_refl _
  | wait run h hret ih => exact (hcall h).trans ih
  | handle run h hret left ih => exact (hcall h).trans ih

section Invariant

variable {J : Connection σ → Bytes → List Pushed → Prop}
  (data : ∀ {c unread log bytes}, bytes ≠ [] → bytes.length ≤ c.readLen →
    J c (bytes ++ unread) log → J { c with buffer := c.buffer ++ bytes } unread log)
  (push : ∀ {c unread log chunk rest pb p}, c.Takes chunk rest pb →
    c.parser.pushLine chunk = some p → J c unread log →
    J (c.afterPush rest pb p) unread (log ++ [c.pushedOf chunk]))

include data push

/-- A property of the connection, the unread bytes and the pushes made so far that reading
    and pushing preserve holds after a call. -/
theorem call_invariant (pushed : List Pushed) {log : List Pushed} {c c' : Connection σ}
    {s s' : Socket} {ret : Int} (hJ : J c s.unread pushed)
    (h : c.processDataIn s = some (.returned ret c' s' log)) : J c' s'.unread (pushed ++ log) := by
  have o := CallOutline.ofInvariant (J := fun c unread log => J c unread (pushed ++ log))
    (fun hne hle h => data hne hle h) (fun htakes hp h => by
      rw [← List.append_assoc]
      exact push htakes hp h)
  exact (o.returned (fun _ _ => trivial) (by simpa using hJ) h).1

/-- When a handler preserves it too, it holds after every run. -/
theorem Turns.invariant (handle : ∀ {c unread log left}, J c unread log →
      J { c with partialBody := left } unread log)
    {c₀ c : Connection σ} {s₀ s : Socket} {ts : List Turn} (h₀ : J c₀ s₀.unread [])
    (run : Turns c₀ s₀ ts c s) : J c s.unread (pushes ts) := by
  induction run with
  | nil => exact h₀
  | wait run h hret ih =>
    rw [pushes_append_singleton]
    exact call_invariant data push _ ih h
  | handle run h hret left ih =>
    rw [pushes_append_singleton]
    exact handle (call_invariant data push _ ih h)

end Invariant

/-- What every call of a run returns, under an invariant of the calls. -/
theorem Turns.forall_ret {J : Connection σ → Bytes → List Pushed → Prop} {P : Int → Prop}
    (o : ∀ pushed, CallOutline (fun _ => True) (fun c unread log => J c unread (pushed ++ log))
      (fun c unread log => J c unread (pushed ++ log))
      (fun ret c unread log => P ret ∧ J c unread (pushed ++ log)))
    (handle : ∀ {c unread log left}, J c unread log → J { c with partialBody := left } unread log)
    {c₀ c : Connection σ} {s₀ s : Socket} {ts : List Turn} (h₀ : J c₀ s₀.unread [])
    (run : Turns c₀ s₀ ts c s) : (∀ t ∈ ts, P t.ret) ∧ J c s.unread (pushes ts) := by
  -- one more call, whatever is done with the body behind it
  have hcall : ∀ {ts c s ret c' s' log}, (∀ t ∈ ts, P t.ret) ∧ J c s.unread (pushes ts) →
      c.processDataIn s = some (.returned ret c' s' log) → ∀ t : Turn, t.ret = ret →
      (∀ t' ∈ ts ++ [t], P t'.ret) ∧ J c' s'.unread (pushes ts ++ log) := by
    intro ts c s ret c' s' log ih h t ht
    obtain ⟨hret, hJ⟩ := ((o _).returned (fun _ _ => trivial) (by simpa using ih.2) h).1
    refine ⟨?_, hJ⟩
    intro t' ht'
    rcases List.mem_append.mp ht' with ht' | ht'
    · exact ih.1 t' ht'
    · rw [List.mem_singleton.mp ht', ht]
      exact hret
  induction run with
  | nil => exact ⟨by simp, h₀⟩
  | wait run h hret ih =>
    rw [pushes_append_singleton]
    exact hcall ih h _ rfl
  | handle run h hret left ih =>
    rw [pushes_append_singleton]
    exact (hcall ih h _ rfl).imp_right handle

/-! ## What a call does to the stream -/

/-- The parser has been fed `fed`, and what is left of the stream is in the buffer or
    unread. -/
def Fed (p₀ : HttpHeaderParser) (stream : Bytes) (fed : List Bytes) (c : Connection σ)
    (unread : Bytes) : Prop :=
  fed.foldlM HttpHeaderParser.pushLine p₀ = some c.parser ∧
    fed.flatten ++ (c.buffer ++ unread) = stream

theorem Fed.push {p₀ : HttpHeaderParser} {stream : Bytes} {fed : List Bytes} {c : Connection σ}
    {unread chunk rest pb : Bytes} {p : HttpHeaderParser} (htakes : c.Takes chunk rest pb)
    (hp : c.parser.pushLine chunk = some p) (h : Fed p₀ stream fed c unread) :
    Fed p₀ stream (fed ++ [chunk]) (c.afterPush rest pb p) unread := by
  obtain ⟨hfold, hstream⟩ := h
  refine ⟨?_, ?_⟩
  · simp only [List.foldlM_append, hfold, List.foldlM_cons, List.foldlM_nil, afterPush]
    simp [hp]
  · rw [← hstream, htakes.buffer_eq]
    simp [afterPush]

theorem Fed.data {p₀ : HttpHeaderParser} {stream : Bytes} {fed : List Bytes} {c : Connection σ}
    {unread bytes : Bytes} (h : Fed p₀ stream fed c (bytes ++ unread)) :
    Fed p₀ stream fed { c with buffer := c.buffer ++ bytes } unread := by
  obtain ⟨hfold, hstream⟩ := h
  exact ⟨hfold, by simpa using hstream⟩

/-- **History of a run.** The parser is the fold of `PushLine` over the chunks pushed, and
    these, `buffer_` and the unread bytes make up the stream. -/
theorem Turns.history {c₀ c : Connection σ} {s₀ s : Socket} {ts : List Turn}
    (run : Turns c₀ s₀ ts c s) :
    Fed c₀.parser (c₀.buffer ++ s₀.unread) (chunks (pushes ts)) c s.unread := by
  apply run.invariant (J := fun c unread log => Fed c₀.parser _ (chunks log) c unread)
  · intro c unread log bytes _ _ h
    exact h.data
  · intro c unread log chunk rest pb p htakes hp h
    rw [chunks_append]
    exact h.push htakes hp
  · intro c unread log left h
    exact h
  · exact ⟨rfl, rfl⟩

end Httpoll.Native.Connection
