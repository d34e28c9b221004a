import Httpoll.Spec.BroadcastDelivery
import Httpoll.Spec.ConnectionLog
import Httpoll.Spec.HookSteps

/-!
# The close hook

`Poll` calls the close hook before it closes a WebSocket connection that it can no longer
read from, and no close hook when the ready hook refuses a connection that the connect hook
has accepted. What a connection has gone through is read off the log of the server.

## Key results

- `will_close_hook_paired`: an accepted connection that its ready hook does not refuse has its
  close hook called once, right before `Poll` closes it, and is then in no group that it joins
  in the connect hook and leaves in the close hook
- `ready_hook_refuses`: a run in which the ready hook refuses, and the connection stays in the
  group
-/

namespace Httpoll.Native.Server

open Connection

variable {σ : Type} {regexMatch : Bytes → Bytes → Option Bool} {pingPong : Bool}
  {table : HandlerTable σ}

/-! ## The life of a connection -/

/-- The steps in the life of one connection, out of the log. -/
def lifecycle (log : List (Nat × Effect)) (id : Nat) : List Effect :=
  (log.filter fun entry => entry.1 = id ∧ isStep entry.2).map Prod.snd

/-- They are among the effects of its events. -/
theorem lifecycle_eq (log : List (Nat × Effect)) (id : Nat) :
    lifecycle log id = (effectsOf log id).filter isStep := by
  unfold lifecycle effectsOf
  rw [List.filter_map, List.filter_filter]
  congr 1
  apply List.filter_congr
  simp [Bool.and_comm]

/-- The connect hook has accepted the connection, and nothing has come after. Before it there
    is at most `CloseConn`, which fails. -/
def AcceptedSteps (steps : List Effect) : Prop :=
  ∃ closes connect version wsKey, (∀ effect ∈ closes, effect = .close) ∧ IsConnect connect ∧
    steps = closes ++ connect ++ [.switchProtocols version wsKey]

/-- The response that accepts the upgrade. -/
def isSwitch : Effect → Bool
  | .switchProtocols .. => true
  | _ => false

/-- What a connection has gone through, and what it is now; `none` when it was freed. -/
inductive Life : Option (Connection σ) → List Effect → Prop where
  | plain {c : Connection σ} (hplain : c.wsConn = none) {steps : List Effect}
    (hcloses : ∀ effect ∈ steps, effect = .close) : Life (some c) steps
  /-- The connect hook has refused, but `CloseConn` has failed. -/
  | refused {c : Connection σ} (hws : c.wsConn.isSome = true) {steps : List Effect}
    (hnot : ∀ effect ∈ steps, isSwitch effect = false) : Life (some c) steps
  | accepted {c : Connection σ} {ws : WebsocketConnection σ} (hws : c.wsConn = some ws)
    (hhook : ws.willCloseHook.isSome = true) {steps : List Effect} (hsteps : AcceptedSteps steps) :
    Life (some c) steps
  /-- The connection was freed before it was accepted. -/
  | freed {steps : List Effect} (hnot : ∀ effect ∈ steps, isSwitch effect = false) :
    Life none steps
  /-- A callback or the user has closed the connection. -/
  | taken {steps : List Effect} (hsteps : AcceptedSteps steps) : Life none steps
  /-- `Poll` has closed the connection. -/
  | closed {steps : List Effect} (hsteps : AcceptedSteps steps) :
    Life none (steps ++ [.wsWillCloseHook [], .close])

private theorem not_isSwitch_of_closes {steps : List Effect}
    (hcloses : ∀ effect ∈ steps, effect = .close) : ∀ effect ∈ steps, isSwitch effect = false := by
  intro effect heffect
  rw [hcloses effect heffect]
  rfl

/-- A connection can be freed at any time. -/
theorem Life.free {c : Option (Connection σ)} {steps : List Effect} (h : Life c steps) :
    Life (none : Option (Connection σ)) steps := by
  cases h with
  | plain hplain hcloses => exact .freed (not_isSwitch_of_closes hcloses)
  | refused hws hnot => exact .freed hnot
  | accepted hws hhook hsteps => exact .taken hsteps
  | freed hnot => exact .freed hnot
  | taken hsteps => exact .taken hsteps
  | closed hsteps => exact .closed hsteps

private theorem Life.free_unless {closed del : Bool} {after : Connection σ} {steps : List Effect}
    (h : Life (some after) steps) : Life (survivor closed del after) steps := by
  unfold survivor
  split
  · exact h.free
  · exact h

/-- An event of a connection that was not upgraded. -/
private theorem Life.plain_event {closed del : Bool} {after : Connection σ}
    {steps added : List Effect} (hcloses : ∀ effect ∈ steps, effect = .close)
    (hadded : PlainSteps closed after added) :
    Life (survivor closed del after) (steps ++ added) := by
  -- whether it survives does not matter for what it has gone through
  apply Life.free_unless
  cases hadded with
  | kept hclosed hplain =>
    rw [List.append_nil]
    exact .plain hplain hcloses
  | dropped hclosed hplain =>
    refine .plain hplain ?_
    intro effect heffect
    rcases List.mem_append.mp heffect with heffect | heffect
    · exact hcloses effect heffect
    · exact List.mem_singleton.mp heffect
  | refused hclosed hws uri =>
    refine .refused hws ?_
    intro effect heffect
    rcases List.mem_append.mp heffect with heffect | heffect
    · exact not_isSwitch_of_closes hcloses effect heffect
    · simp only [List.mem_cons, List.not_mem_nil, or_false] at heffect
      rcases heffect with rfl | rfl <;> rfl
  | accepted hclosed hconnect version wsKey hws hhook =>
    rw [← List.append_assoc]
    exact .accepted hws hhook ⟨steps, _, version, wsKey, hcloses, hconnect, rfl⟩

/-- One event of the connection. -/
theorem Life.event {c : Connection σ} {s s' : Socket} {user : σ} {steps : List Effect}
    (h : Life (some c) steps) (hfd : c.fd ≠ -1)
    (hup : ∀ up ∈ upgradeOf regexMatch table c s,
      HasCloseHook up.1 ∧ readyAnswerOf up.1 up.2 user ≠ some (-1)) {del : Bool}
    (hdel : (∃ effect ∈ steps, isSwitch effect = true) → del = true) {r : Served σ}
    (hserved : pollEvent regexMatch pingPong table c s user = some (.served r s')) :
    Life (survivor r.conn.isNone del (connAfter regexMatch pingPong table c s user))
      (steps ++ r.effects.filter isStep) := by
  cases h with
  | plain hplain hcloses =>
    exact Life.plain_event hcloses (pollEvent_plain_steps hplain hfd hup hserved)
  | refused hws hnot =>
    obtain ⟨ws, hws⟩ := Option.isSome_iff_exists.mp hws
    -- the steps it may add are those of a closing, and no acceptance
    obtain ⟨⟨ws', hws', -⟩, hadded⟩ := pollEvent_websocket_steps hws hserved
    apply Life.free_unless
    refine .refused (by rw [hws']; rfl) ?_
    intro effect heffect
    rcases List.mem_append.mp heffect with heffect | heffect
    · exact hnot effect heffect
    · rcases hadded with ⟨-, hadded⟩ | ⟨-, hadded⟩
      · rw [hadded] at heffect
        exact absurd heffect List.not_mem_nil
      · rw [hadded] at heffect
        cases hhook : ws.willCloseHook with
        | none =>
          rw [hhook] at heffect
          rw [List.mem_singleton.mp heffect]
          rfl
        | some hook =>
          rw [hhook] at heffect
          rcases List.mem_cons.mp heffect with rfl | heffect
          · rfl
          · rw [List.mem_singleton.mp heffect]
            rfl
  | accepted hws hhook hsteps =>
    rename_i ws
    obtain ⟨⟨ws', hws', hsame⟩, hadded⟩ := pollEvent_websocket_steps hws hserved
    -- the response that accepts it is in the log
    obtain rfl : del = true := by
      apply hdel
      obtain ⟨closes, connect, version, wsKey, -, -, rfl⟩ := hsteps
      exact ⟨_, List.mem_append_right _ List.mem_cons_self, rfl⟩
    rcases hadded with ⟨hkept, hadded⟩ | ⟨hclosed, hadded⟩
    · rw [hkept, hadded, List.append_nil]
      exact .accepted hws' (hsame ▸ hhook) hsteps
    · -- the close hook and then `CloseConn`
      obtain ⟨hook, hhook⟩ := Option.isSome_iff_exists.mp hhook
      rw [hclosed, hadded, hhook]
      exact .closed hsteps

private theorem AcceptedSteps.split {steps tail pre post : List Effect} {version : HttpVersion}
    {wsKey : Bytes} (h : AcceptedSteps steps) (htail : ∀ effect ∈ tail, isSwitch effect = false)
    (heq : steps ++ tail = pre ++ .switchProtocols version wsKey :: post) :
    steps = pre ++ [.switchProtocols version wsKey] ∧ tail = post := by
  obtain ⟨closes, connect, version', wsKey', hcloses, hconnect, rfl⟩ := h
  -- the response at the end of `steps` is the only one
  have hnot : ∀ effect ∈ closes ++ connect, isSwitch effect = false := by
    intro effect heffect
    rcases List.mem_append.mp heffect with heffect | heffect
    · exact not_isSwitch_of_closes hcloses effect heffect
    · rcases hconnect with rfl | ⟨uri, rfl⟩
      · exact absurd heffect List.not_mem_nil
      · rw [List.mem_singleton.mp heffect]
        rfl
  have hswitch : isSwitch (.switchProtocols version wsKey) = true := rfl
  rw [List.append_assoc, List.append_eq_append_iff] at heq
  rcases heq with ⟨between, hpre, hrest⟩ | ⟨between, hpre, hrest⟩
  · cases between with
    | nil =>
      cases hrest
      rw [hpre, List.append_nil]
      exact ⟨rfl, rfl⟩
    | cons first between =>
      -- a second response would be in `tail`
      obtain ⟨-, rfl⟩ := List.cons.inj hrest
      have := htail _ (List.mem_append_right _ List.mem_cons_self)
      rw [hswitch] at this
      cases this
  · cases between with
    | nil =>
      cases hrest
      rw [List.append_nil] at hpre
      rw [hpre]
      exact ⟨rfl, rfl⟩
    | cons first between =>
      -- or before `steps` ends
      obtain ⟨rfl, -⟩ := List.cons.inj hrest
      have := hnot _ (hpre ▸ List.mem_append_right _ List.mem_cons_self)
      rw [hswitch] at this
      cases this

/-- What `Poll` has closed after the connect hook had accepted it. -/
theorem Life.paired {c : Option (Connection σ)} {steps pre post : List Effect}
    {version : HttpVersion} {wsKey : Bytes} (h : Life c steps)
    (heq : steps = pre ++ .switchProtocols version wsKey :: post) (hclosed : Effect.close ∈ post) :
    c = none ∧ AcceptedSteps (pre ++ [.switchProtocols version wsKey]) ∧
      post = [.wsWillCloseHook [], .close] := by
  have hmem : Effect.switchProtocols version wsKey ∈ steps := by
    rw [heq]
    exact List.mem_append_right _ List.mem_cons_self
  -- nothing comes after the response as long as the connection is not closed
  have hnone : ∀ {steps : List Effect}, AcceptedSteps steps →
      steps ≠ pre ++ .switchProtocols version wsKey :: post := by
    intro steps hsteps heq
    obtain ⟨-, hpost⟩ := hsteps.split (fun _ h => absurd h List.not_mem_nil)
      (steps.append_nil.trans heq)
    rw [← hpost] at hclosed
    cases hclosed
  cases h with
  | plain hplain hcloses => cases hcloses _ hmem
  | refused hws hnot => cases hnot _ hmem
  | accepted hws hhook hsteps => exact absurd heq (hnone hsteps)
  | freed hnot => cases hnot _ hmem
  | taken hsteps => exact absurd heq (hnone hsteps)
  | closed hsteps =>
    obtain ⟨hpre, hpost⟩ := hsteps.split (by decide) heq
    exact ⟨rfl, hpre ▸ hsteps, hpost.symm⟩

/-! ## Runs -/

/-- The connect hook has accepted the connection. -/
def Accepted (log : List (Nat × Effect)) (id : Nat) : Prop :=
  ∃ version wsKey, (id, Effect.switchProtocols version wsKey) ∈ log

/-- The connection is upgraded with handlers that have a close hook only. -/
def HookedEvent (regexMatch : (pattern text : Bytes) → Option Bool) (id : Nat)
    (s : ServerState σ) : PollEvent σ → Prop
  | .server _ => True
  | .client e =>
    e.id = id → e.epollin = true → ∀ c, s.client? id = some c →
      ∀ up ∈ upgradeOf regexMatch s.requestHandlers c.conn e.socket, HasCloseHook up.1

/-- The ready hook does not refuse the connection, and `epoll_ctl(2)` does not fail when the
    connection is closed after it was accepted. -/
def OrderlyEvent (regexMatch : (pattern text : Bytes) → Option Bool) (id : Nat)
    (s : ServerState σ) : PollEvent σ → Prop
  | .server _ => True
  | .client e =>
    e.id = id → e.epollin = true → ∀ c, s.client? id = some c →
      (∀ up ∈ upgradeOf regexMatch s.requestHandlers c.conn e.socket,
        readyAnswerOf up.1 up.2 s.user ≠ some (-1)) ∧
      (Accepted s.log id → e.del = true)

theorem accepted_of_lifecycle {log : List (Nat × Effect)} {id : Nat}
    (h : ∃ effect ∈ lifecycle log id, isSwitch effect = true) : Accepted log id := by
  obtain ⟨effect, heffect, hswitch⟩ := h
  obtain ⟨entry, hentry, rfl⟩ := List.mem_map.mp heffect
  obtain ⟨hmem, hid⟩ := List.mem_filter.mp hentry
  obtain ⟨id', effect⟩ := entry
  obtain ⟨rfl, -⟩ : id' = id ∧ isStep effect = true := by simpa using hid
  cases effect with
  | switchProtocols version wsKey => exact ⟨version, wsKey, hmem⟩
  | _ => cases hswitch

/-- What holds of the clients, and of the life of the connection `id`. -/
structure Lives (id : Nat) (s : ServerState σ) : Prop where
  clients : Inv s
  life : Life ((s.client? id).map Client.conn) (lifecycle s.log id)
  /-- Nothing has happened to a connection that is to come. -/
  fresh : s.nextId ≤ id → lifecycle s.log id = []

namespace Lives

variable {id : Nat} {s : ServerState σ}

private theorem closeConn (h : Lives id s) (id' : Nat) (del : Bool) :
    Lives id (s.closeConn id' del).2 := by
  obtain ⟨hlog, hnext⟩ := closeConn_log s id' del
  constructor
  · exact h.clients.closeConn id' del
  · rw [hlog, client?_closeConn]
    split
    · exact h.life.free
    · exact h.life
  · rw [hlog, hnext]
    exact h.fresh

/-- One round of the loop. -/
private theorem pollOne {s' : ServerState σ} {e : PollEvent σ} (h : Lives id s)
    (hhook : HookedEvent regexMatch id s e) (horderly : OrderlyEvent regexMatch id s e)
    (hs' : stateAfter (pollOne regexMatch pingPong s e) = some s') : Lives id s' := by
  obtain ⟨effects, hround, hlog, hnext, hunborn⟩ := pollOne_rounds h.clients id hs'
  have hsteps : lifecycle s'.log id = lifecycle s.log id ++ effects.filter isStep := by
    rw [lifecycle_eq, lifecycle_eq, hlog, List.filter_append]
  constructor
  · exact h.clients.pollOne hs'
  · rw [hsteps]
    generalize (s'.client? id).map Client.conn = conn at hround ⊢
    have hlife := h.life
    cases hround with
    | other _ hconn =>
      rw [List.filter_nil, List.append_nil]
      rcases hconn with rfl | rfl
      · exact hlife
      · exact hlife.free
    | accepted _ hid =>
      -- the new client is plain, and nothing has happened to it
      rw [h.fresh (Nat.le_of_eq hid.symm)]
      exact .plain rfl (fun _ h => absurd h List.not_mem_nil)
    | @served e c hc hid hin r s₁ hserved =>
      subst hid
      obtain ⟨hmem, -⟩ := client?_eq_some hc
      rw [hc] at hlife
      have hfd : c.conn.fd ≠ -1 := by
        have hpos : 0 ≤ c.conn.fd := (h.clients.opened c hmem).1
        omega
      obtain ⟨hready, hdel⟩ := horderly rfl hin c hc
      exact hlife.event hfd (fun up hup => ⟨hhook rfl hin c hc up hup, hready up hup⟩)
        (fun h' => hdel (accepted_of_lifecycle h')) hserved
  · intro hle
    rw [hsteps, h.fresh (Nat.le_trans hnext hle), hunborn hle]
    rfl

/-- An orderly run. -/
private theorem run {s' : ServerState σ} {calls : List (Call σ)} (h : Lives id s)
    (hhooks : AlongEvents regexMatch pingPong (HookedEvent regexMatch id) s calls)
    (horderly : AlongEvents regexMatch pingPong (OrderlyEvent regexMatch id) s calls)
    (hrun : calls.foldlM (step regexMatch pingPong) s = some s') : Lives id s' := by
  refine run_rule ?_ ?_ ?_ h (hhooks.and horderly) hrun
  · exact fun s uri handler h => ⟨h.clients.registerRequestHandler uri handler, h.life, h.fresh⟩
  · exact fun s id' del h => h.closeConn id' del
  · exact fun s e s' h he hs' => h.pollOne he.1 he.2 hs'

end Lives

/-! ## Groups -/

/-- The calls on a group of which the connect hook joins and the close hook leaves, with the
    capacity of the pipe that `pipe(2)` makes for each connection, if it makes one. -/
def hookCalls (capacity : Nat → Option Nat) (log : List (Nat × Effect)) : List GroupCall :=
  log.filterMap fun entry =>
    match entry.2 with
    | .wsConnectHook _ => some (.join (some entry.1) (capacity entry.1))
    | .wsWillCloseHook _ => some (.leave entry.1)
    | _ => none

/-- A call that changes the members of a group. -/
def isMembership : GroupCall → Bool
  | .broadcast .. => false
  | _ => true

private theorem filter_hookCalls (capacity : Nat → Option Nat) (log : List (Nat × Effect)) :
    (hookCalls capacity log).filter isMembership = hookCalls capacity log := by
  rw [List.filter_eq_self]
  intro call hcall
  obtain ⟨entry, -, hentry⟩ := List.mem_filterMap.mp hcall
  split at hentry
  · cases hentry
    rfl
  · cases hentry
    rfl
  · cases hentry

/-- How often a connection is in a group, after one more call. -/
private def countCall (id n : Nat) : GroupCall → Nat
  | .join (some conn) (some _) => if conn = id then n + 1 else n
  | .leave conn => if conn = id then n - 1 else n
  | _ => n

/-- The same, after one more step in the life of the connection. -/
private def countStep (joins : Bool) (n : Nat) : Effect → Nat
  | .wsConnectHook _ => if joins then n + 1 else n
  | .wsWillCloseHook _ => n - 1
  | _ => n

private theorem count_entries (id : Nat) (calls : List GroupCall) (s : BroadcastGroup.Ideal) :
    (calls.foldl BroadcastGroup.Ideal.call s).entries.count id =
      calls.foldl (countCall id) (s.entries.count id) := by
  refine List.foldl_rel (r := fun (s : BroadcastGroup.Ideal) n => s.entries.count id = n) rfl ?_
  rintro call _ s n rfl
  cases call with
  | join connection capacity =>
    cases connection with
    | none => rfl
    | some conn =>
      cases capacity with
      | none => rfl
      | some capacity =>
        -- an entry more
        show (s.entries ++ [conn]).count id = if conn = id then _ else _
        rw [List.count_append, List.count_singleton]
        by_cases hid : conn = id <;> simp [hid]
  | leave conn =>
    -- an entry less, if there was one
    show (s.entries.erase conn).count id = if conn = id then _ else _
    rw [List.count_erase]
    by_cases hid : conn = id <;> simp [hid]
  | broadcast data msgType k => rfl

private theorem foldl_filter_isMembership (id n : Nat) (calls : List GroupCall) :
    (calls.filter isMembership).foldl (countCall id) n = calls.foldl (countCall id) n := by
  rw [List.foldl_filter]
  congr 1
  funext n call
  cases call <;> rfl

private theorem foldl_hookCalls (capacity : Nat → Option Nat) (id n : Nat)
    (log : List (Nat × Effect)) :
    (hookCalls capacity log).foldl (countCall id) n =
      (lifecycle log id).foldl (countStep (capacity id).isSome) n := by
  unfold hookCalls lifecycle
  rw [List.foldl_filterMap, List.foldl_map, List.foldl_filter]
  congr 1
  funext n entry
  obtain ⟨id', effect⟩ := entry
  -- the calls for other connections change nothing here
  by_cases hid : id' = id
  · subst hid
    cases effect with
    | wsConnectHook uri => cases capacity id' <;> simp [countCall, countStep, isStep]
    | wsWillCloseHook uri => simp [countCall, countStep, isStep]
    | _ => simp [countStep]
  · cases effect with
    | wsConnectHook uri => cases capacity id' <;> simp [countCall, hid]
    | wsWillCloseHook uri => simp [countCall, hid]
    | _ => simp [hid]

/-- A connection that was accepted has joined once at most. -/
private theorem count_acceptedSteps {steps : List Effect} (h : AcceptedSteps steps) (joins : Bool) :
    steps.foldl (countStep joins) 0 ≤ 1 := by
  obtain ⟨closes, connect, version, wsKey, hcloses, hconnect, rfl⟩ := h
  -- the calls of `CloseConn` before the hook join nothing
  have hnone : closes.foldl (countStep joins) 0 = 0 := by
    clear hconnect
    induction closes with
    | nil => rfl
    | cons effect closes ih =>
      obtain ⟨rfl, hrest⟩ := List.forall_mem_cons.mp hcloses
      exact ih hrest
  rw [List.foldl_append, List.foldl_append, hnone]
  rcases hconnect with rfl | ⟨uri, rfl⟩
  · exact Nat.zero_le 1
  · cases joins
    · exact Nat.zero_le 1
    · exact Nat.le_refl 1

/-- **Close hooks.** Take a connection that is upgraded with a close hook, in a run in which
    its ready hook does not refuse it and no `epoll_ctl(2)` fails when it is closed after it
    was accepted. If `Poll` closes it after it was accepted, it is freed after exactly one call
    of its close hook. It is then in no group that it joins in the connect hook and leaves in
    the close hook, whatever is broadcast in between. -/
theorem will_close_hook_paired (user : σ) (calls : List (Call σ)) (id : Nat)
    (hhooks : AlongEvents regexMatch pingPong (HookedEvent regexMatch id) { user } calls)
    (horderly : AlongEvents regexMatch pingPong (OrderlyEvent regexMatch id) { user } calls)
    (s : ServerState σ)
    (hrun : calls.foldlM (step regexMatch pingPong) { user } = some s)
    (pre post : List Effect) (version : HttpVersion) (wsKey : Bytes)
    (hlife : lifecycle s.log id = pre ++ .switchProtocols version wsKey :: post)
    (hclosed : Effect.close ∈ post) :
    s.client? id = none ∧ post = [.wsWillCloseHook [], .close] ∧
      (∀ uri, Effect.wsWillCloseHook uri ∉ pre) ∧
      ∀ (capacity : Nat → Option Nat) (group : BroadcastGroup) (groupCalls : List GroupCall),
        id ∉ group.connections.map Member.conn →
        groupCalls.filter isMembership = hookCalls capacity s.log →
        id ∉ (group.after groupCalls).connections.map Member.conn := by
  have hinit : Lives id ({ user } : ServerState σ) :=
    ⟨inv_init user, .freed (fun _ h => absurd h List.not_mem_nil), fun _ => rfl⟩
  have hlives := hinit.run hhooks horderly hrun
  obtain ⟨hnone, haccepted, hpost⟩ := hlives.life.paired hlife hclosed
  refine ⟨Option.map_eq_none_iff.mp hnone, hpost, ?_, ?_⟩
  · -- only `CloseConn` and the connect hook come before
    intro uri hmem
    obtain ⟨closes, connect, version', wsKey', hcloses, hconnect, heq⟩ := haccepted
    obtain ⟨rfl, -⟩ := List.append_inj' heq rfl
    rcases List.mem_append.mp hmem with hmem | hmem
    · cases hcloses _ hmem
    · rcases hconnect with rfl | ⟨uri', rfl⟩
      · cases hmem
      · cases List.mem_singleton.mp hmem
  · intro capacity group groupCalls hout hcalls
    -- joined once at most, and left once
    rw [← List.count_eq_zero] at hout ⊢
    have hentries := BroadcastGroup.map_conn_after (g := group)
      (s := ⟨group.connections.map Member.conn, fun _ => []⟩) rfl groupCalls
    rw [hentries, count_entries, ← foldl_filter_isMembership, hcalls, foldl_hookCalls, hlife, hpost,
      hout]
    have hjoined := count_acceptedSteps haccepted (capacity id).isSome
    rw [List.append_cons, List.foldl_append]
    show _ - 1 = 0
    omega

/-! ## Handlers that do not refuse -/

/-- The ready hook never refuses a connection. -/
def NeverRefuses (handlers : RequestHandler σ) : Prop :=
  ∀ hook ∈ handlers.wsReadyHook, ∀ user uri, (hook user uri).1 ≠ -1

theorem readyAnswerOf_ne {handlers : RequestHandler σ} (h : NeverRefuses handlers) (uri : Bytes)
    (user : σ) : readyAnswerOf handlers uri user ≠ some (-1) := by
  intro hanswer
  unfold readyAnswerOf at hanswer
  dsimp only at hanswer
  split at hanswer
  · cases hanswer
  · obtain ⟨hook, hhook, hret⟩ := Option.map_eq_some_iff.mp hanswer
    exact h hook hhook _ _ hret

/-- When each handler has a close hook, each connection is upgraded with one. -/
theorem hooked_of_handlers {calls : List (Call σ)}
    (h : ∀ call ∈ calls, ∀ entry ∈ call.registers, HasCloseHook entry.2) (id : Nat)
    {s : ServerState σ} (hs : s.requestHandlers.All HasCloseHook) :
    AlongEvents regexMatch pingPong (HookedEvent regexMatch id) s calls := by
  refine along_of_handlers h ?_ hs
  intro s _ _ e _ hall
  cases e with
  | server answer => trivial
  | client e => exact fun _ _ c _ => upgradeOf_all hall

/-- When no ready hook ever refuses, it is enough that `epoll_ctl(2)` does not fail. -/
theorem orderly_of_handlers {calls : List (Call σ)}
    (h : ∀ call ∈ calls, ∀ entry ∈ call.registers, NeverRefuses entry.2)
    (hdel : ∀ call ∈ calls, ∀ e, .client e ∈ call.events → e.del = true) (id : Nat)
    {s : ServerState σ} (hs : s.requestHandlers.All NeverRefuses) :
    AlongEvents regexMatch pingPong (OrderlyEvent regexMatch id) s calls := by
  refine along_of_handlers h ?_ hs
  intro s call hcall e he hall
  cases e with
  | server answer => trivial
  | client e =>
    intro _ _ c _
    refine ⟨?_, fun _ => hdel call hcall e he⟩
    exact fun up hup => readyAnswerOf_ne (upgradeOf_all hall up hup) up.2 s.user

/-- Handlers for WebSocket connections, each of whose hooks is called. -/
private def hookHandlers (ready : Int) : RequestHandler Unit :=
  { wsConnectHook := some fun _ _ => (0, ())
    wsReadyHook := some fun _ _ => (ready, ())
    wsWillCloseHook := some fun _ _ => (0, ()) }

/-- A connection is accepted, and then bytes come on it. -/
private def acceptAndRead (ready : Int) (chunks : List Bytes) : List (Call Unit) :=
  .registerRequestHandler (ascii "*") (hookHandlers ready) ::
    .poll (some [.server ⟨some 5, true, true⟩]) :: chunks.map fun unread =>
      .poll (some [.client { id := 0, socket := ⟨unread, [.ready 999]⟩, others := by simp }])

private def upgradeChunk : Bytes :=
  ascii "GET / HTTP/1.1" ++ crlf ++ ascii "Upgrade: websocket" ++ crlf ++
    ascii "Connection: Upgrade" ++ crlf ++ ascii "Sec-WebSocket-Key: abc" ++ crlf ++ crlf

/-- A connection that is upgraded and then closed by its client. -/
theorem close_frame_paired :
    ∃ s : ServerState Unit,
      (acceptAndRead 0 [upgradeChunk, [0x88, 0x80, 0, 0, 0, 0]]).foldlM
        (step (fun p t => some (simpleMatch p t)) true) { user := () } = some s ∧
      lifecycle s.log 0 = [.wsConnectHook (ascii "/"), .switchProtocols .HTTP_1_1 (ascii "abc"),
        .wsWillCloseHook [], .close] ∧
      s.client? 0 = none ∧
      0 ∉ ((BroadcastGroup.new (some 64)).after
        (hookCalls (fun _ => some 64) s.log)).connections.map Member.conn := by
  obtain ⟨s, hrun, hlife⟩ := Option.map_eq_some_iff.mp (show
    ((acceptAndRead 0 [upgradeChunk, [0x88, 0x80, 0, 0, 0, 0]]).foldlM
      (step (fun p t => some (simpleMatch p t)) true) { user := () }).map
        (fun s => lifecycle s.log 0) =
      some [.wsConnectHook (ascii "/"), .switchProtocols .HTTP_1_1 (ascii "abc"),
        .wsWillCloseHook [], .close] by decide +kernel)
  have hhooks : AlongEvents (fun p t => some (simpleMatch p t)) true
      (HookedEvent (fun p t => some (simpleMatch p t)) 0) { user := () }
      (acceptAndRead 0 [upgradeChunk, [0x88, 0x80, 0, 0, 0, 0]]) :=
    hooked_of_handlers (by decide) 0 HandlerTable.all_empty
  -- the ready hook keeps the connection
  have hready : NeverRefuses (hookHandlers 0) := by
    intro hook hhook user uri
    cases hhook
    exact (by decide : (0 : Int) ≠ -1)
  -- and no event closes it but the close frame
  have horderly : AlongEvents (fun p t => some (simpleMatch p t)) true
      (OrderlyEvent (fun p t => some (simpleMatch p t)) 0) { user := () }
      (acceptAndRead 0 [upgradeChunk, [0x88, 0x80, 0, 0, 0, 0]]) := by
    refine orderly_of_handlers ?_ ?_ 0 HandlerTable.all_empty
    · intro call hcall entry hentry
      simp only [acceptAndRead, List.map_cons, List.map_nil, List.mem_cons, List.not_mem_nil,
        or_false] at hcall
      rcases hcall with rfl | rfl | rfl | rfl
      · rw [List.mem_singleton.mp hentry]
        exact hready
      · cases hentry
      · cases hentry
      · cases hentry
    · intro call hcall e he
      simp only [acceptAndRead, List.map_cons, List.map_nil, List.mem_cons, List.not_mem_nil,
        or_false] at hcall
      rcases hcall with rfl | rfl | rfl | rfl
      · cases he
      · cases List.mem_singleton.mp he
      · cases List.mem_singleton.mp he
        rfl
      · cases List.mem_singleton.mp he
        rfl
  obtain ⟨hnone, -, -, hout⟩ := will_close_hook_paired () _ 0 hhooks horderly s hrun
    [.wsConnectHook (ascii "/")] [.wsWillCloseHook [], .close] .HTTP_1_1 (ascii "abc") hlife
    (by decide)
  exact ⟨s, hrun, hlife, hnone, hout (fun _ => some 64) _ _ (by decide) (filter_hookCalls _ _)⟩

/-- The ready hook refuses a connection that the connect hook has accepted. `Poll` closes it,
    and it stays in the group. -/
theorem ready_hook_refuses :
    ∃ s : ServerState Unit,
      (acceptAndRead (-1) [upgradeChunk]).foldlM
        (step (fun p t => some (simpleMatch p t)) true) { user := () } = some s ∧
      (∀ call ∈ acceptAndRead (-1) [upgradeChunk], ∀ entry ∈ call.registers,
        HasCloseHook entry.2) ∧
      lifecycle s.log 0 =
        [.wsConnectHook (ascii "/"), .switchProtocols .HTTP_1_1 (ascii "abc"), .close] ∧
      s.client? 0 = none ∧
      ((BroadcastGroup.new (some 64)).after
        (hookCalls (fun _ => some 64) s.log)).connections.map Member.conn = [0] := by
  obtain ⟨s, hrun, hs⟩ := Option.map_eq_some_iff.mp (show
    ((acceptAndRead (-1) [upgradeChunk]).foldlM
      (step (fun p t => some (simpleMatch p t)) true) { user := () }).map
        (fun s => (lifecycle s.log 0, (s.client? 0).isNone,
          ((BroadcastGroup.new (some 64)).after
            (hookCalls (fun _ => some 64) s.log)).connections.map Member.conn)) =
      some ([.wsConnectHook (ascii "/"), .switchProtocols .HTTP_1_1 (ascii "abc"), .close],
        true, [0]) by decide +kernel)
  obtain ⟨hlife, hrest⟩ := Prod.mk.inj hs
  obtain ⟨hnone, hin⟩ := Prod.mk.inj hrest
  exact ⟨s, hrun, by decide, hlife, Option.isNone_iff_eq_none.mp hnone, hin⟩

end Httpoll.Native.Server
