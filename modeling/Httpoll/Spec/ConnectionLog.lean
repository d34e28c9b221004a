import Httpoll.Spec.Handlers

/-!
# The log of a connection

What one connection of a server goes through is read off the log of the server. An account of
it is a relation between what the connection is now and what its events have done; it holds
after every run if it holds of a new connection, and the events of the connection keep it.

## Key results

- `pollOne_rounds`: what a round of the loop does to one connection
- `Account.run`: an account of the connections holds after every run
- `effectsOf_freed`: nothing is logged for a connection after it was freed
-/

namespace Httpoll.Native.Server

open Connection

variable {σ : Type} {regexMatch : Bytes → Bytes → Option Bool} {pingPong : Bool}

/-- What the events of one connection did, out of the log. -/
def effectsOf (log : List (Nat × Effect)) (id : Nat) : List Effect :=
  (log.filter fun entry => entry.1 = id).map Prod.snd

theorem effectsOf_append (log more : List (Nat × Effect)) (id : Nat) :
    effectsOf (log ++ more) id = effectsOf log id ++ effectsOf more id := by
  unfold effectsOf
  rw [List.filter_append, List.map_append]

/-- What one event adds. -/
theorem effectsOf_effects (effects : List Effect) (id id' : Nat) :
    effectsOf (effects.map fun effect => (id, effect)) id' =
      if id' = id then effects else [] := by
  unfold effectsOf
  rw [List.filter_map, List.map_map]
  split
  · rename_i heq
    simp [Function.comp_def, heq]
  · rename_i hne
    simp [Function.comp_def, Ne.symm hne]

/-! ## New clients -/

theorem client?_nextId {s : ServerState σ} (h : Inv s) : s.client? s.nextId = none := by
  rw [client?_eq_none]
  intro hmem
  -- every connection that is held has a smaller number
  obtain ⟨c, hc, hid⟩ := List.mem_map.mp hmem
  have hlt := h.fresh c hc
  omega

/-- The client that an accept adds is a new connection; the others stay as they are. -/
theorem client?_withClient {s : ServerState σ} (h : Inv s) (fd : Int) (id : Nat) :
    ((withClient s fd).client? id).map Client.conn =
      if id = s.nextId then some { fd } else (s.client? id).map Client.conn := by
  show ((s.pendingConns ++ [_]).find? _).map Client.conn = _
  rw [List.find?_append]
  split
  · rename_i hid
    rw [hid, show s.pendingConns.find? (·.id = s.nextId) = none from client?_nextId h]
    simp
  · rename_i hid
    -- the new client is not the one that is looked for
    have hlast : [({ id := s.nextId, conn := { fd } } : Client σ)].find? (·.id = id) = none := by
      simp [Ne.symm hid]
    rw [hlast, Option.or_none]
    rfl

/-! ## One round of the loop -/

/-- What a round of the loop makes of the connection `id`, and the effects that it logs for it. -/
inductive OwnRound (regexMatch : (pattern text : Bytes) → Option Bool) (pingPong : Bool) (id : Nat)
    (s : ServerState σ) : PollEvent σ → Option (Connection σ) → List Effect → Prop where
  /-- The event is about something else. Its callbacks may close the connection. -/
  | other {e : PollEvent σ}
    (hother : ∀ e', e = .client e' → e'.id = id → e'.epollin = false)
    {conn : Option (Connection σ)}
    (hconn : conn = (s.client? id).map Client.conn ∨ conn = none) :
    OwnRound regexMatch pingPong id s e conn []
  | accepted {answer : AcceptAnswer} {fd : Int} (hpos : 0 ≤ fd) (hid : id = s.nextId) :
    OwnRound regexMatch pingPong id s (.server answer) (some { fd }) []
  | served {e : ClientEvent σ} {c : Client σ} (hc : s.client? e.id = some c) (hid : e.id = id)
    (hin : e.epollin = true) {r : Served σ} {s₁ : Socket}
    (hserved : pollEvent regexMatch pingPong s.requestHandlers c.conn e.socket s.user =
      some (.served r s₁)) :
    OwnRound regexMatch pingPong id s (.client e)
      (survivor r.conn.isNone e.del
        (connAfter regexMatch pingPong s.requestHandlers c.conn e.socket s.user)) r.effects

/-- The connection after a round, its log, and the number of the next connection. -/
structure Rounds (regexMatch : (pattern text : Bytes) → Option Bool) (pingPong : Bool) (id : Nat)
    (s : ServerState σ) (e : PollEvent σ) (s' : ServerState σ) (effects : List Effect) : Prop where
  round : OwnRound regexMatch pingPong id s e ((s'.client? id).map Client.conn) effects
  logged : effectsOf s'.log id = effectsOf s.log id ++ effects
  later : s.nextId ≤ s'.nextId
  /-- Nothing happens to a connection that is to come. -/
  unborn : s'.nextId ≤ id → effects = []

/-- A round that logs nothing and leaves the connection as it is. -/
private theorem Rounds.same {id : Nat} {s s' : ServerState σ} {e : PollEvent σ}
    (hother : ∀ e', e = .client e' → e'.id = id → e'.epollin = false)
    (hclient : (s'.client? id).map Client.conn = (s.client? id).map Client.conn)
    (hlog : s'.log = s.log) (hnext : s.nextId ≤ s'.nextId) :
    Rounds regexMatch pingPong id s e s' [] :=
  ⟨.other hother (.inl hclient), by rw [hlog, List.append_nil], hnext, fun _ => rfl⟩

private theorem pollServer_rounds {s s' : ServerState σ} (h : Inv s) (id : Nat)
    {answer : AcceptAnswer}
    (hs' : stateAfter (pollOne regexMatch pingPong s (.server answer)) = some s') :
    ∃ effects, Rounds regexMatch pingPong id s (.server answer) s' effects := by
  have hround := pollOne_round regexMatch pingPong s (.server answer)
  generalize pollOne regexMatch pingPong s (.server answer) = exit at hround hs'
  cases hround with
  | impossible => cases hs'
  | refused => cases hs'; exact ⟨[], .same nofun rfl rfl (Nat.le_refl _)⟩
  | notSet => cases hs'; exact ⟨[], .same nofun rfl rfl (Nat.le_refl _)⟩
  | notWatched => cases hs'; exact ⟨[], .same nofun rfl rfl (Nat.le_refl _)⟩
  | @registered answer fd hfd hpos hnew hset hadd =>
    cases hs'
    -- the id is the one that was given to the new connection, or there is no change for it
    have hclient := client?_withClient h fd id
    by_cases hid : id = s.nextId
    · rw [if_pos hid] at hclient
      refine ⟨[], ?_, (List.append_nil _).symm, Nat.le_succ _, fun _ => rfl⟩
      rw [hclient]
      exact .accepted hpos hid
    · rw [if_neg hid] at hclient
      exact ⟨[], .same nofun hclient rfl (Nat.le_succ _)⟩

private theorem pollClient_rounds {s s' : ServerState σ} (h : Inv s) (id : Nat)
    {e : ClientEvent σ}
    (hs' : stateAfter (pollOne regexMatch pingPong s (.client e)) = some s') :
    ∃ effects, Rounds regexMatch pingPong id s (.client e) s' effects := by
  unfold pollOne pollClient at hs'
  dsimp only at hs'
  cases hc : s.client? e.id with
  | none => rw [hc] at hs'; cases hs'
  | some c =>
    rw [hc] at hs'
    dsimp only at hs'
    cases hin : e.epollin with
    | false =>
      rw [hin] at hs'
      cases hs'
      refine ⟨[], .same ?_ rfl rfl (Nat.le_refl _)⟩
      rintro e' heq -
      cases heq
      exact hin
    | true =>
      rw [if_pos hin] at hs'
      cases hevent : pollEvent regexMatch pingPong s.requestHandlers c.conn e.socket s.user with
      | none => rw [hevent] at hs'; cases hs'
      | some result =>
        rw [hevent] at hs'
        cases result with
        | fault f => cases hs'
        | unfinished => cases hs'
        | served r s₁ =>
          cases hs'
          generalize hconn :
            connAfter regexMatch pingPong s.requestHandlers c.conn e.socket s.user = conn
          obtain ⟨hlog, hnext⟩ := afterServed_log s e conn r
          by_cases hid : e.id = id
          · subst hid
            refine ⟨r.effects, ?_, ?_, by rw [hnext], ?_⟩
            · rw [client?_afterServed_self hc, ← hconn]
              exact .served hc rfl hin hevent
            · rw [hlog, effectsOf_append, effectsOf_effects, if_pos rfl]
            · -- the connection of the event has a number that was given
              obtain ⟨hmem, hcid⟩ := client?_eq_some hc
              have hlt := h.fresh c hmem
              intro hle
              omega
          · -- another one's event leaves it alone, or its callbacks close it
            refine ⟨[], .other ?_ ?_, ?_, by rw [hnext], fun _ => rfl⟩
            · rintro e' heq hid'
              cases heq
              exact absurd hid' hid
            · rcases client?_afterServed_other (Ne.symm hid) conn r with heq | hnone
              · exact .inl heq
              · rw [hnone]
                exact .inr rfl
            · rw [hlog, effectsOf_append, effectsOf_effects, if_neg (Ne.symm hid)]

/-- **One round of the loop.** -/
theorem pollOne_rounds {s s' : ServerState σ} (h : Inv s) (id : Nat) {e : PollEvent σ}
    (hs' : stateAfter (pollOne regexMatch pingPong s e) = some s') :
    ∃ effects, Rounds regexMatch pingPong id s e s' effects := by
  cases e with
  | server answer => exact pollServer_rounds h id hs'
  | client e => exact pollClient_rounds h id hs'

/-! ## Accounts -/

/-- What an account of a connection has to meet, for a server whose handlers all satisfy `Q`, and
    whose `epoll_ctl(2)` calls for the connection come out as `D` allows when it is closed: it
    holds of no connection, of a new one, is kept by each event that does not bring the server
    down, and when the connection is freed. -/
structure Account (regexMatch : (pattern text : Bytes) → Option Bool) (pingPong : Bool)
    (Q : RequestHandler σ → Prop) (D : Bool → Prop)
    (A : Option (Connection σ) → List Effect → Prop) : Prop where
  none_nil : A none []
  accepted : ∀ fd : Int, 0 ≤ fd → A (some { fd }) []
  event : ∀ (table : HandlerTable σ) (c : Connection σ) (s s' : Socket) (user : σ)
    (effects : List Effect) (r : Served σ) (del : Bool), table.All Q → D del → 0 ≤ c.fd →
    A (some c) effects → pollEvent regexMatch pingPong table c s user = some (.served r s') →
    A (survivor r.conn.isNone del (connAfter regexMatch pingPong table c s user))
      (effects ++ r.effects)
  freed : ∀ (c : Connection σ) (effects : List Effect), A (some c) effects → A none effects

/-- An account of the connection `id` in a state of the server. -/
structure Accounted (A : Option (Connection σ) → List Effect → Prop) (id : Nat)
    (s : ServerState σ) : Prop where
  clients : Inv s
  account : A ((s.client? id).map Client.conn) (effectsOf s.log id)
  /-- Nothing has happened to a connection that is to come. -/
  unborn : s.nextId ≤ id → effectsOf s.log id = []

variable {Q : RequestHandler σ → Prop} {D : Bool → Prop}
  {A : Option (Connection σ) → List Effect → Prop}

namespace Account

theorem free (hA : Account regexMatch pingPong Q D A) {c : Option (Connection σ)}
    {effects : List Effect} (h : A c effects) : A none effects := by
  cases c with
  | none => exact h
  | some c => exact hA.freed c effects h

/-- An account that every event keeps for the connection after it, freed or not. -/
theorem of_connAfter (hnone : A none []) (haccepted : ∀ fd : Int, 0 ≤ fd → A (some { fd }) [])
    (hevent : ∀ (table : HandlerTable σ) (c : Connection σ) (s s' : Socket) (user : σ)
      (effects : List Effect) (r : Served σ), table.All Q → 0 ≤ c.fd → A (some c) effects →
      pollEvent regexMatch pingPong table c s user = some (.served r s') →
      A (some (connAfter regexMatch pingPong table c s user)) (effects ++ r.effects))
    (hfreed : ∀ (c : Connection σ) (effects : List Effect), A (some c) effects →
      A none effects) :
    Account regexMatch pingPong Q D A := by
  refine ⟨hnone, haccepted, ?_, hfreed⟩
  intro table c s s' user effects r del hall _ hfd h hserved
  have hafter := hevent table c s s' user effects r hall hfd h hserved
  -- it is gone when the event has closed it and `CloseConn` deletes
  unfold survivor
  split
  · exact hfreed _ _ hafter
  · exact hafter

theorem init (hA : Account regexMatch pingPong Q D A) (id : Nat) (user : σ) :
    Accounted A id ({ user } : ServerState σ) :=
  ⟨inv_init user, hA.none_nil, fun _ => rfl⟩

theorem closeConn (hA : Account regexMatch pingPong Q D A) {id : Nat} {s : ServerState σ}
    (h : Accounted A id s) (id' : Nat) (del : Bool) : Accounted A id (s.closeConn id' del).2 := by
  obtain ⟨hlog, hnext⟩ := closeConn_log s id' del
  constructor
  · exact h.clients.closeConn id' del
  · rw [hlog, client?_closeConn]
    split
    · exact hA.free h.account
    · exact h.account
  · rw [hlog, hnext]
    exact h.unborn

/-- One round of the loop. -/
theorem pollOne (hA : Account regexMatch pingPong Q D A) {id : Nat} {s s' : ServerState σ}
    {e : PollEvent σ} (h : Accounted A id s) (hall : s.requestHandlers.All Q)
    (hdel : ∀ e', e = .client e' → e'.id = id → D e'.del)
    (hs' : stateAfter (pollOne regexMatch pingPong s e) = some s') : Accounted A id s' := by
  obtain ⟨effects, hround, hlog, hnext, hunborn⟩ := pollOne_rounds h.clients id hs'
  constructor
  · exact h.clients.pollOne hs'
  · rw [hlog]
    generalize (s'.client? id).map Client.conn = conn at hround ⊢
    have haccount := h.account
    cases hround with
    | other _ hconn =>
      rw [List.append_nil]
      rcases hconn with rfl | rfl
      · exact haccount
      · exact hA.free haccount
    | accepted hpos hid =>
      -- the number has not been given before, so nothing is logged for it
      rw [h.unborn (Nat.le_of_eq hid.symm)]
      exact hA.accepted _ hpos
    | @served e c hc hid _ r s₁ hserved =>
      obtain ⟨hmem, -⟩ := client?_eq_some hc
      rw [← hid, hc] at haccount
      rw [← hid]
      exact hA.event _ _ _ _ _ _ _ _ hall (hdel e rfl hid) (h.clients.opened c hmem).1 haccount
        hserved
  · intro hle
    rw [hlog, h.unborn (Nat.le_trans hnext hle), hunborn hle]
    rfl

/-- **An account of the connections holds after every run.** -/
theorem run (hA : Account regexMatch pingPong Q D A) {id : Nat} {s s' : ServerState σ}
    {calls : List (Call σ)} (h : Accounted A id s) (hall : s.requestHandlers.All Q)
    (hnew : ∀ call ∈ calls, ∀ entry ∈ call.registers, Q entry.2)
    (hdel : ∀ call ∈ calls, ∀ e, .client e ∈ call.events → e.id = id → D e.del)
    (hrun : calls.foldlM (step regexMatch pingPong) s = some s') : Accounted A id s' := by
  -- the handlers stay `Q` from call to call, and each event has its part of `hdel`
  apply run_rule (P := fun s e => s.requestHandlers.All Q ∧
    ∀ e', e = .client e' → e'.id = id → D e'.del) _ _ _ h
    (along_of_handlers hnew _ hall) hrun
  · exact fun s uri handler h =>
      ⟨h.clients.registerRequestHandler uri handler, h.account, h.unborn⟩
  · exact fun s id' del h => hA.closeConn h id' del
  · exact fun s e s' h hP hs' => hA.pollOne h hP.1 hP.2 hs'
  · intro s call hcall e he hall
    refine ⟨hall, ?_⟩
    rintro e' rfl
    exact hdel call hcall e' he

end Account

/-! ## The log of a call -/

/-- What a call logs comes behind what was logged before. -/
theorem log_isPrefix {s s' : ServerState σ} {call : Call σ}
    (hstep : step regexMatch pingPong s call = some s') : s.log <+: s'.log := by
  apply step_rule (I := fun s' => s.log <+: s'.log) (P := fun _ _ => True) _ _ _
    (List.prefix_refl _) (Runs.along_of_forall (fun _ _ _ => trivial) _) hstep
  · exact fun _ _ _ h => h
  · intro s₁ id del h
    rw [(closeConn_log s₁ id del).1]
    exact h
  · intro s₁ e s₂ h _ hs₂
    apply pollOne_rule h _ _ _ hs₂
    · exact fun _ => h
    · exact fun _ _ _ => h
    · intro e' c r s₃ _ _ _ _
      -- an event only adds to the log
      rw [(afterServed_log s₁ e' _ r).1]
      exact h.trans (List.prefix_append _ _)

/-! ## Freed connections -/

/-- The connection was freed, and its log was `effects`. -/
structure Freed (id : Nat) (effects : List Effect) (s : ServerState σ) : Prop where
  clients : Inv s
  born : id < s.nextId
  gone : s.client? id = none
  logged : effectsOf s.log id = effects

namespace Freed

variable {id : Nat} {effects : List Effect} {s : ServerState σ}

theorem closeConn (h : Freed id effects s) (id' : Nat) (del : Bool) :
    Freed id effects (s.closeConn id' del).2 := by
  obtain ⟨hlog, hnext⟩ := closeConn_log s id' del
  refine ⟨h.clients.closeConn id' del, ?_, ?_, ?_⟩
  · rw [hnext]
    exact h.born
  · rw [client?_closeConn, h.gone, ite_self]
  · rw [hlog]
    exact h.logged

/-- One round of the loop. -/
theorem pollOne (h : Freed id effects s) {s' : ServerState σ} {e : PollEvent σ}
    (hs' : stateAfter (pollOne regexMatch pingPong s e) = some s') : Freed id effects s' := by
  obtain ⟨added, hround, hlog, hnext, -⟩ := pollOne_rounds h.clients id hs'
  have hborn := h.born
  generalize hconn : (s'.client? id).map Client.conn = conn at hround
  cases hround with
  | other _ hgone =>
    refine ⟨h.clients.pollOne hs', by omega, ?_, ?_⟩
    · apply Option.map_eq_none_iff.mp
      rw [h.gone] at hgone
      rw [hconn]
      exact hgone.elim (·) (·)
    · rw [hlog, List.append_nil]
      exact h.logged
  | accepted _ hid => omega
  | served hc hid =>
    -- a connection that was freed gets no events: `Poll` would dereference it
    rw [hid, h.gone] at hc
    cases hc

end Freed

/-- **A freed connection stays freed, and nothing more is logged for it.** -/
theorem effectsOf_freed {id : Nat} {effects : List Effect} {s s' : ServerState σ}
    {calls : List (Call σ)} (h : Freed id effects s)
    (hrun : calls.foldlM (step regexMatch pingPong) s = some s') : Freed id effects s' := by
  apply run_rule (P := fun _ _ => True) _ _ _ h
    (Runs.along_of_forall (fun _ _ _ => Runs.along_of_forall (fun _ _ _ => trivial) _) _) hrun
  · exact fun s uri handler h =>
      ⟨h.clients.registerRequestHandler uri handler, h.born, h.gone, h.logged⟩
  · exact fun s id' del h => h.closeConn id' del
  · exact fun s e s' h _ hs' => h.pollOne hs'

end Httpoll.Native.Server
