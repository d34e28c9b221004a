import Httpoll.Spec.Clients

/-!
# Events on freed connections

The events of a batch hold pointers to connections. A callback that is called for one event
may close the connection of a later one.

## Key results

- `poll_ne_dangling`: when `Poll` dereferences no connection that was freed
- `poll_dangling`: a batch with which it does
-/

namespace Httpoll.Native.Server

variable {σ : Type} {regexMatch : Bytes → Bytes → Option Bool} {pingPong : Bool}

/-- What `epoll_wait(2)` can give: at most ten events, one for each connection. -/
structure Batch (s : ServerState σ) (events : List (PollEvent σ)) : Prop where
  short : events.length ≤ 10
  distinct : (events.map PollEvent.ptr).Nodup
  watched : ∀ id, some id ∈ events.map PollEvent.ptr → id ∈ s.epoll.map Prod.snd

/-- No callback closes a connection that has an event later in the batch. -/
def NoneClosedLater (events : List (PollEvent σ)) : Prop :=
  events.Pairwise fun e later => ∀ close ∈ e.closes, close.2 = true → later.ptr ≠ some close.1

theorem mem_closeConn {s : ServerState σ} {id id' : Nat} {del : Bool}
    (hid' : id' ∈ s.pendingConns.map Client.id) (hne : del = true → id' ≠ id) :
    id' ∈ (s.closeConn id del).2.pendingConns.map Client.id := by
  unfold ServerState.closeConn
  cases s.client? id with
  | none => exact hid'
  | some c =>
    cases del with
    | false => exact hid'
    | true =>
      obtain ⟨c', hc', rfl⟩ := List.mem_map.mp hid'
      exact List.mem_map_of_mem (List.mem_filter.mpr ⟨hc', by simpa using hne rfl⟩)

/-- An event that is served leaves the connections that neither it nor its callbacks close. -/
theorem mem_afterServed {s : ServerState σ} {id' : Nat} {e : ClientEvent σ} {conn : Connection σ}
    {r : Served σ} (hid' : id' ∈ s.pendingConns.map Client.id) (hself : id' ≠ e.id)
    (hne : ∀ close ∈ e.closes, close.2 = true → id' ≠ close.1) :
    id' ∈ (afterServed s e conn r).pendingConns.map Client.id := by
  rw [← map_id_setConn s e.id conn] at hid'
  refine afterServed_rule (P := fun s' => id' ∈ s'.pendingConns.map Client.id) hid' ?_
  intro s' id del hclose hmem
  apply mem_closeConn hmem
  intro hdel
  rcases hclose with hclose | rfl
  · exact hne (id, del) hclose hdel
  · exact hself

/-- One round of the loop leaves the connections of the events to come. -/
private theorem mem_pollOne {s s' : ServerState σ} {e : PollEvent σ} {id' : Nat}
    (hs' : pollOne regexMatch pingPong s e = .ok s')
    (hid' : id' ∈ s.pendingConns.map Client.id) (hself : e.ptr ≠ some id')
    (hne : ∀ close ∈ e.closes, close.2 = true → id' ≠ close.1) :
    id' ∈ s'.pendingConns.map Client.id := by
  have hround := pollOne_round regexMatch pingPong s e
  rw [hs'] at hround
  cases hround with
  | refused hfd => exact hid'
  | notSet hfd hnew hset => exact hid'
  | registered hfd hpos hnew hset hadd =>
    show id' ∈ (s.pendingConns ++ [_]).map Client.id
    rw [List.map_append]
    exact List.mem_append_left _ hid'
  | skipped => exact hid'
  | served hc hin hserved => exact mem_afterServed hid' (fun h => hself (congrArg some h.symm)) hne

/-- Only an event of a client that is gone makes `Poll` dereference it. -/
private theorem client?_of_dangling {s : ServerState σ} {e : PollEvent σ} {id : Nat}
    (hround : pollOne regexMatch pingPong s e = .error (.dangling id)) :
    e.ptr = some id ∧ id ∉ s.pendingConns.map Client.id := by
  have h := pollOne_round regexMatch pingPong s e
  rw [hround] at h
  cases h with
  | dangling hnone => exact ⟨rfl, client?_eq_none.mp hnone⟩

/-- The loop of `Poll` on events whose connections are there. -/
private theorem foldlM_pollOne_ne_dangling {events : List (PollEvent σ)} {s : ServerState σ}
    (hdistinct : (events.map PollEvent.ptr).Nodup) (hlater : NoneClosedLater events)
    (hthere : ∀ id, some id ∈ events.map PollEvent.ptr → id ∈ s.pendingConns.map Client.id)
    (id : Nat) :
    events.foldlM (pollOne regexMatch pingPong) s ≠ .error (.dangling id) := by
  induction events generalizing s with
  | nil =>
    intro h
    cases h
  | cons e events ih =>
    rw [List.map_cons, List.nodup_cons] at hdistinct
    obtain ⟨hfirst, hlater⟩ := List.pairwise_cons.mp hlater
    rw [List.foldlM_cons]
    cases hround : pollOne regexMatch pingPong s e with
    | ok s₁ =>
      -- the connections of the other events are still there in `s₁`
      apply ih hdistinct.2 hlater
      intro id' hid'
      obtain ⟨later, hmem', hptr⟩ := List.mem_map.mp hid'
      apply mem_pollOne hround (hthere id' (List.mem_cons_of_mem _ hid'))
      · intro heq
        exact hdistinct.1 (heq ▸ hid')
      · intro close hclose hdel heq
        exact hfirst later hmem' close hclose hdel (heq ▸ hptr)
    | error exit =>
      intro h
      cases h
      obtain ⟨hptr, hgone⟩ := client?_of_dangling hround
      apply hgone
      apply hthere id
      rw [List.map_cons, hptr]
      exact List.mem_cons_self

/-- **No event on a freed connection.** In every state that a run reaches, and for every batch
    of events in which no callback closes a connection that has an event later in the batch,
    `Poll` dereferences `server_conn_` and connections of `pending_conns_` only. -/
theorem poll_ne_dangling (user : σ) (calls : List (Call σ)) (s : ServerState σ)
    (hrun : calls.foldlM (step regexMatch pingPong) { user } = some s)
    (events : List (PollEvent σ)) (hbatch : Batch s events) (hlater : NoneClosedLater events)
    (id : Nat) : poll regexMatch pingPong s (some events) ≠ .dangling id := by
  have hinv := (inv_init user).run hrun
  -- epoll watches clients of the server only
  have hthere : ∀ id, some id ∈ events.map PollEvent.ptr → id ∈ s.pendingConns.map Client.id := by
    intro id hid
    have hmem := hbatch.watched id hid
    rw [hinv.epoll, List.map_map] at hmem
    exact hmem
  unfold poll
  dsimp only
  intro h
  split at h
  · cases h
  · rename_i exit hexit
    rw [h] at hexit
    exact foldlM_pollOne_ne_dangling hbatch.distinct hlater hthere id hexit

/-- The connection whose event is dereferenced after it was freed. -/
def danglingOf : PollExit σ → Option Nat
  | .dangling id => some id
  | _ => none

theorem danglingOf_eq_some {exit : PollExit σ} {id : Nat} (h : danglingOf exit = some id) :
    exit = .dangling id := by
  cases exit with
  | returned ret s => cases h
  | dangling id' => rw [Option.some.inj h]
  | down => cases h

/-- Two connections that have sent nothing yet. -/
private def twoClients : ServerState Unit :=
  { requestHandlers := anyTable
    pendingConns := [⟨0, { fd := 5 }⟩, ⟨1, { fd := 6 }⟩]
    nextId := 2
    epoll := [(5, 0), (6, 1)]
    openFds := [6, 5]
    user := () }

private def acceptTwo : List (Call Unit) :=
  [.registerRequestHandler (ascii "*") keepHandlers,
    .poll (some [.server ⟨some 5, true, true⟩]), .poll (some [.server ⟨some 6, true, true⟩])]

/-- A request for `/`, on which the handler closes other connections. -/
private def getEvent (id : Nat) (closes : List (Nat × Bool))
    (others : ∀ close ∈ closes, close.1 ≠ id) : PollEvent Unit :=
  .client { id, socket := ⟨ascii "GET / HTTP/1.1" ++ crlf ++ crlf, [.ready 99]⟩, closes, others }

private theorem batch_twoClients {events : List (PollEvent Unit)} (hshort : events.length ≤ 10)
    (hdistinct : (events.map PollEvent.ptr).Nodup)
    (hptr : ∀ ptr ∈ events.map PollEvent.ptr, ptr ∈ [none, some 0, some 1]) :
    Batch twoClients events := by
  refine ⟨hshort, hdistinct, ?_⟩
  intro id hid
  have hmem := hptr _ hid
  simp only [List.mem_cons, List.not_mem_nil, or_false, reduceCtorEq, false_or,
    Option.some.injEq] at hmem
  rcases hmem with rfl | rfl <;> decide

/-- A request handler closes a connection whose event came before. -/
theorem poll_closed_before :
    ∃ s : ServerState Unit,
      acceptTwo.foldlM (step (fun p t => some (simpleMatch p t)) true) { user := () } =
        some s ∧
      ∀ id, poll (fun p t => some (simpleMatch p t)) true s
        (some [getEvent 1 [] (by decide), getEvent 0 [(1, true)] (by decide)]) ≠ .dangling id :=
  ⟨twoClients, rfl, poll_ne_dangling () acceptTwo twoClients rfl _
    (batch_twoClients (by decide) (by decide) (by decide))
    (by unfold NoneClosedLater; decide)⟩

/-- A request handler closes a connection whose event comes next. -/
theorem poll_dangling :
    ∃ s : ServerState Unit,
      acceptTwo.foldlM (step (fun p t => some (simpleMatch p t)) true) { user := () } =
        some s ∧
      Batch s [getEvent 0 [(1, true)] (by decide), getEvent 1 [] (by decide)] ∧
      poll (fun p t => some (simpleMatch p t)) true s
        (some [getEvent 0 [(1, true)] (by decide), getEvent 1 [] (by decide)]) = .dangling 1 :=
  ⟨twoClients, rfl, batch_twoClients (by decide) (by decide) (by decide),
    danglingOf_eq_some (by decide +kernel)⟩

end Httpoll.Native.Server
