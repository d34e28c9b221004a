import Httpoll.Spec.Clients

/-!
# The handlers of a run

The user may register handlers at any time: before a call of `Poll`, or from a callback that
`Poll` makes. What each of them satisfies is satisfied by every handler that is ever found.

## Key results

- `allHandlers_step`: what all registered handlers satisfy, over a call
- `along_of_handlers`: a condition on events that follows from what the handlers satisfy
-/

namespace Httpoll.Native

variable {σ : Type} {Q : RequestHandler σ → Prop}

/-! ## The table -/

/-- Every handler of the table satisfies `Q`. -/
def HandlerTable.All (Q : RequestHandler σ → Prop) (t : HandlerTable σ) : Prop :=
  ∀ entry ∈ t.entries, Q entry.2

theorem HandlerTable.all_empty : (HandlerTable.empty : HandlerTable σ).All Q :=
  fun _ h => absurd h List.not_mem_nil

/-- An entry is the new one, or it was there before. -/
theorem HandlerTable.eq_or_mem_of_mem_assignEntry {key : Bytes}
    {handler : RequestHandler σ} {entries : List (Bytes × RequestHandler σ)}
    {entry : Bytes × RequestHandler σ} (h : entry ∈ assignEntry key handler entries) :
    entry = (key, handler) ∨ entry ∈ entries := by
  induction entries with
  | nil => exact .inl (List.mem_singleton.mp h)
  | cons e rest ih =>
    unfold assignEntry at h
    split at h
    · -- in the place of one with the same key
      rcases List.mem_cons.mp h with heq | hmem
      · exact .inl heq
      · exact .inr (List.mem_cons_of_mem e hmem)
    · split at h
      · exact List.mem_cons.mp h
      · rcases List.mem_cons.mp h with rfl | hmem
        · exact .inr List.mem_cons_self
        · exact (ih hmem).imp id (List.mem_cons_of_mem e)

theorem HandlerTable.All.registerRequestHandler {t : HandlerTable σ} (h : t.All Q) (uri : Bytes)
    {handler : RequestHandler σ} (hnew : Q handler) :
    (Native.registerRequestHandler t uri handler).All Q := by
  intro entry hentry
  rcases HandlerTable.eq_or_mem_of_mem_assignEntry hentry with rfl | hmem
  · exact hnew
  · exact h entry hmem

theorem HandlerTable.All.registerRequestHandlers {t : HandlerTable σ} (h : t.All Q)
    {registers : List (Bytes × RequestHandler σ)} (hnew : ∀ entry ∈ registers, Q entry.2) :
    (Native.registerRequestHandlers t registers).All Q := by
  unfold Native.registerRequestHandlers
  induction registers generalizing t with
  | nil => exact h
  | cons entry registers ih =>
    obtain ⟨hfirst, hrest⟩ := List.forall_mem_cons.mp hnew
    exact ih (h.registerRequestHandler entry.1 hfirst) hrest

namespace Server

variable {regexMatch : Bytes → Bytes → Option Bool} {pingPong : Bool}

/-! ## Runs -/

theorem closeConn_requestHandlers (s : ServerState σ) (id : Nat) (del : Bool) :
    (s.closeConn id del).2.requestHandlers = s.requestHandlers := by
  unfold ServerState.closeConn
  cases s.client? id with
  | none => rfl
  | some c => cases del <;> rfl

theorem allHandlers_afterServed {s : ServerState σ} (h : s.requestHandlers.All Q)
    {e : ClientEvent σ} (hnew : ∀ entry ∈ e.registers, Q entry.2) (conn : Connection σ)
    (r : Served σ) : (afterServed s e conn r).requestHandlers.All Q := by
  refine afterServed_rule (P := fun s' => s'.requestHandlers.All Q) ?_ ?_
  · unfold served
    dsimp only
    split
    · exact h.registerRequestHandlers hnew
    · exact h
  · intro s' id del _ h'
    rw [closeConn_requestHandlers]
    exact h'

/-- One round of the loop. -/
theorem allHandlers_pollOne {s s' : ServerState σ} {e : PollEvent σ}
    (h : s.requestHandlers.All Q) (hnew : ∀ entry ∈ e.registers, Q entry.2)
    (hs' : stateAfter (pollOne regexMatch pingPong s e) = some s') :
    s'.requestHandlers.All Q := by
  refine pollOne_rule (I := fun s' => s'.requestHandlers.All Q) h (fun _ => h) ?_ ?_ hs'
  · exact fun _ _ _ => h
  · rintro e' c r s₁ rfl _ _ _
    exact allHandlers_afterServed h hnew _ r

private theorem mem_registers {call : Call σ} {e : PollEvent σ} (he : e ∈ call.events)
    {entry : Bytes × RequestHandler σ} (h : entry ∈ e.registers) : entry ∈ call.registers := by
  cases call with
  | registerRequestHandler uri handler => exact absurd he List.not_mem_nil
  | poll events => exact List.mem_flatMap.mpr ⟨e, he, h⟩
  | closeConn id del => exact absurd he List.not_mem_nil

/-- One call on the server. -/
theorem allHandlers_step {s s' : ServerState σ} {call : Call σ} (h : s.requestHandlers.All Q)
    (hnew : ∀ entry ∈ call.registers, Q entry.2)
    (hstep : step regexMatch pingPong s call = some s') : s'.requestHandlers.All Q := by
  refine step_rule (I := fun s => s.requestHandlers.All Q)
    (P := fun _ e => ∀ entry ∈ e.registers, Q entry.2) ?_ ?_ ?_ h ?_ hstep
  · exact fun s entry hentry h => h.registerRequestHandler entry.1 (hnew entry hentry)
  · intro s id del h
    rw [closeConn_requestHandlers]
    exact h
  · exact fun s e s' h hnew hs' => allHandlers_pollOne h hnew hs'
  · exact Runs.along_of_forall
      (fun e he s entry hentry => hnew entry (mem_registers he hentry)) s

/-- **Conditions on events.** A condition that the events of a run meet as long as all
    handlers satisfy `Q` is met when all handlers satisfy `Q` that are registered in the run. -/
theorem along_of_handlers {P : ServerState σ → PollEvent σ → Prop} {calls : List (Call σ)}
    (hnew : ∀ call ∈ calls, ∀ entry ∈ call.registers, Q entry.2)
    (hP : ∀ s, ∀ call ∈ calls, ∀ e ∈ call.events, s.requestHandlers.All Q → P s e)
    {s : ServerState σ} (hs : s.requestHandlers.All Q) :
    AlongEvents regexMatch pingPong P s calls := by
  refine Runs.along_of_invariant (I := fun s => s.requestHandlers.All Q) ?_ ?_ hs
  · exact fun s call hcall s' h hstep => allHandlers_step h (hnew call hcall) hstep
  · intro s call hcall h
    refine Runs.along_of_invariant (I := fun s => s.requestHandlers.All Q) ?_ ?_ h
    · intro s e he s' h hs'
      -- the rounds of a `Poll` go on only after an event that returned
      have hs' : stateAfter (pollOne regexMatch pingPong s e) = some s' := by
        cases hone : pollOne regexMatch pingPong s e with
        | ok s₁ =>
          rw [hone] at hs'
          exact hs'
        | error exit =>
          rw [hone] at hs'
          cases hs'
      exact allHandlers_pollOne h (fun entry hentry =>
        hnew call hcall entry (mem_registers he hentry)) hs'
    · exact fun s e he h => hP s call hcall e he h

end Server

end Httpoll.Native
