import Httpoll.Spec.Clients

/-!
# Descriptors

Who owns the descriptors that `accept(2)` gives. `CloseConn` closes the descriptor of the
connection that it frees, but the error paths that drop an accepted connection do not.

## Key results

- `owned_iff`: when each open descriptor is that of one client
- `descriptor_leaks`: two runs after which one is not
-/

namespace Httpoll.Native.Server

variable {σ : Type} {regexMatch : Bytes → Bytes → Option Bool} {pingPong : Bool}

/-- The kernel gives a descriptor, and a call on it fails. -/
def Leaks : PollEvent σ → Prop
  | .server answer => answer.fd ≠ none ∧ (answer.setsockopt = false ∨ answer.add = false)
  | .client _ => False

instance : DecidablePred (Leaks (σ := σ))
  | .server answer =>
    inferInstanceAs
      (Decidable (answer.fd ≠ none ∧ (answer.setsockopt = false ∨ answer.add = false)))
  | .client _ => inferInstanceAs (Decidable False)

/-- Each descriptor that is open is that of one client, which epoll watches. -/
def Owned (s : ServerState σ) : Prop :=
  ∀ fd ∈ s.openFds, ∃ c ∈ s.pendingConns, c.fd = fd ∧ (fd, c.id) ∈ s.epoll ∧
    ∀ c' ∈ s.pendingConns, c'.fd = fd → c' = c

/-- Each descriptor that is open is that of a client. -/
private def Covered (s : ServerState σ) : Prop :=
  ∀ fd ∈ s.openFds, fd ∈ s.pendingConns.map Client.fd

private theorem owned_iff_covered {s : ServerState σ} (h : Inv s) : Owned s ↔ Covered s := by
  constructor
  · intro howned fd hfd
    obtain ⟨c, hc, rfl, -⟩ := howned fd hfd
    exact List.mem_map_of_mem hc
  · intro hcovered fd hfd
    obtain ⟨c, hc, rfl⟩ := List.mem_map.mp (hcovered fd hfd)
    refine ⟨c, hc, rfl, ?_, ?_⟩
    · rw [h.epoll]
      exact List.mem_map_of_mem hc
    · intro c' hc' hfd'
      exact h.eq_of_fd hc' hc hfd'

/-- `CloseConn` closes the descriptor of a client that it frees, and no other one. -/
private theorem covered_closeConn {s : ServerState σ} (h : Inv s) (id : Nat) (del : Bool) :
    Covered (s.closeConn id del).2 ↔ Covered s := by
  rcases closeConn_cases h id del with heq | ⟨c, hc, hid, -, heq⟩
  · rw [heq]
  · rw [heq]
    constructor
    · intro hcovered fd hfd
      -- the descriptor is that of the client that was freed, or it is still open
      by_cases hfdc : fd = c.fd
      · rw [hfdc]
        exact List.mem_map_of_mem hc
      · obtain ⟨c', hc', rfl⟩ := List.mem_map.mp
          (hcovered fd (List.mem_filter.mpr ⟨hfd, by simpa using hfdc⟩))
        exact List.mem_map_of_mem (List.mem_filter.mp hc').1
    · intro hcovered fd hfd
      obtain ⟨hfd, hne⟩ := List.mem_filter.mp hfd
      obtain ⟨c', hc', rfl⟩ := List.mem_map.mp (hcovered fd hfd)
      refine List.mem_map_of_mem (List.mem_filter.mpr ⟨hc', ?_⟩)
      -- it was not closed, so its client has another number
      have hfdc : c'.fd ≠ c.fd := by simpa using hne
      have hid' : c'.id ≠ id := by
        intro hid'
        exact hfdc (by rw [h.eq_of_id hc' hc (hid'.trans hid.symm)])
      simpa using hid'

private theorem covered_afterServed {s : ServerState σ} (h : Inv s) {e : ClientEvent σ}
    {c : Client σ} (hc : s.client? e.id = some c) {conn : Connection σ} (hfd : conn.fd = c.fd)
    (r : Served σ) : Covered (afterServed s e conn r) ↔ Covered s := by
  have hserved : Covered (served s e conn r) ↔ Covered s := by
    show (∀ fd ∈ s.openFds, fd ∈ (s.setConn e.id conn).pendingConns.map Client.fd) ↔ _
    rw [map_fd_setConn h hc hfd]
    rfl
  refine (afterServed_rule (P := fun s' => Inv s' ∧ (Covered s' ↔ Covered s))
    ⟨h.served hc hfd r, hserved⟩ ?_).2
  intro s' id del _ h'
  exact ⟨h'.1.closeConn id del, (covered_closeConn h'.1 id del).trans h'.2⟩

/-- A descriptor that is open and not of a client. -/
private theorem not_covered_withFd {s : ServerState σ} (h : Inv s) {fd : Int}
    (hnew : fd ∉ s.openFds) : ¬ Covered (withFd s fd) := by
  intro hcovered
  obtain ⟨c, hc, hfd⟩ := List.mem_map.mp (hcovered fd List.mem_cons_self)
  exact hnew (hfd ▸ (h.opened c hc).2)

private theorem covered_withClient {s : ServerState σ} {fd : Int} (hnew : fd ∉ s.openFds) :
    Covered (withClient s fd) ↔ Covered s := by
  have hmap : (withClient s fd).pendingConns.map Client.fd = s.pendingConns.map Client.fd ++ [fd] :=
    List.map_append
  constructor
  · intro hcovered fd' hfd'
    have hmem := hcovered fd' (List.mem_cons_of_mem fd hfd')
    rw [hmap, List.mem_append, List.mem_singleton] at hmem
    -- the new descriptor was not in use, so it is none of these
    refine hmem.resolve_right ?_
    rintro rfl
    exact hnew hfd'
  · intro hcovered fd' hfd'
    rw [hmap, List.mem_append, List.mem_singleton]
    rcases List.mem_cons.mp hfd' with rfl | hfd'
    · exact .inr rfl
    · exact .inl (hcovered fd' hfd')

/-- One round of the loop. -/
private theorem covered_pollOne {s s' : ServerState σ} {e : PollEvent σ} (h : Inv s)
    (hs' : stateAfter (pollOne regexMatch pingPong s e) = some s') :
    Covered s' ↔ Covered s ∧ ¬ Leaks e := by
  have hround := pollOne_round regexMatch pingPong s e
  generalize pollOne regexMatch pingPong s e = exit at hround hs'
  cases hround with
  | impossible => cases hs'
  | @refused answer hfd =>
    cases hs'
    have hkept : ¬ Leaks (σ := σ) (.server answer) := fun hleaks => hleaks.1 hfd
    rw [and_iff_left hkept]
  -- a descriptor that was accepted is lost when the calls behind `accept(2)` fail
  | @notSet answer fd hfd hnew hset =>
    cases hs'
    have hleaks : Leaks (σ := σ) (.server answer) :=
      ⟨by rw [hfd]; exact Option.some_ne_none fd, .inl hset⟩
    exact iff_of_false (not_covered_withFd h hnew) (fun hcovered => hcovered.2 hleaks)
  | @notWatched answer fd hfd hnew hadd =>
    cases hs'
    have hleaks : Leaks (σ := σ) (.server answer) :=
      ⟨by rw [hfd]; exact Option.some_ne_none fd, .inr hadd⟩
    exact iff_of_false (not_covered_withFd h hnew) (fun hcovered => hcovered.2 hleaks)
  | @registered answer fd hfd hpos hnew hset hadd =>
    cases hs'
    have hkept : ¬ Leaks (σ := σ) (.server answer) := by simp [Leaks, hset, hadd]
    rw [and_iff_left hkept]
    exact covered_withClient hnew
  | dangling hnone => cases hs'
  -- an event of a client opens nothing
  | @skipped e =>
    cases hs'
    have hkept : ¬ Leaks (σ := σ) (.client e) := fun hleaks => hleaks
    rw [and_iff_left hkept]
  | down => cases hs'
  | @served e c hc hin r s₁ hserved =>
    cases hs'
    have hkept : ¬ Leaks (σ := σ) (.client e) := fun hleaks => hleaks
    rw [and_iff_left hkept]
    exact covered_afterServed h hc (connAfter_fd _ _ _) _

/-- Only a round that leaks a descriptor makes `Poll` return early. -/
private theorem leaks_of_error {s s' : ServerState σ} {e : PollEvent σ} {exit : PollExit σ}
    (hround : pollOne regexMatch pingPong s e = .error exit)
    (hs' : stateAfter (.error exit) = some s') : Leaks e := by
  have h := pollOne_round regexMatch pingPong s e
  rw [hround] at h
  cases h with
  | impossible => cases hs'
  | notWatched hfd hnew hadd => exact ⟨by rw [hfd]; exact Option.some_ne_none _, .inr hadd⟩
  | dangling hnone => cases hs'
  | down => cases hs'

/-- The loop of `Poll`. -/
private theorem covered_foldlM {events : List (PollEvent σ)} {s s' : ServerState σ} (h : Inv s)
    (hs' : stateAfter (events.foldlM (pollOne regexMatch pingPong) s) = some s') :
    Covered s' ↔ Covered s ∧ ∀ e ∈ events, ¬ Leaks e := by
  induction events generalizing s with
  | nil =>
    cases hs'
    simp
  | cons e events ih =>
    rw [List.foldlM_cons] at hs'
    rw [List.forall_mem_cons]
    cases hround : pollOne regexMatch pingPong s e with
    | ok s₁ =>
      rw [hround] at hs'
      have hone := congrArg stateAfter hround
      rw [ih (h.pollOne hone) hs', covered_pollOne h hone, and_assoc]
    | error exit =>
      -- `Poll` returns before the other events
      rw [hround] at hs'
      have hleaks := leaks_of_error hround hs'
      have hone : stateAfter (pollOne regexMatch pingPong s e) = some s' := by
        rw [hround]
        exact hs'
      rw [covered_pollOne h hone]
      exact iff_of_false (fun hcovered => hcovered.2 hleaks) (fun hcovered => hcovered.2.1 hleaks)

/-- One call on the server. -/
private theorem covered_step {s s' : ServerState σ} {call : Call σ} (h : Inv s)
    (hstep : step regexMatch pingPong s call = some s') :
    Covered s' ↔ Covered s ∧ ∀ e ∈ call.events, ¬ Leaks e := by
  cases call with
  | registerRequestHandler uri handler =>
    cases hstep
    simp [Covered, ServerState.registerRequestHandler, Call.events]
  | closeConn id del =>
    cases hstep
    simp [covered_closeConn h id del, Call.events]
  | poll events =>
    cases events with
    | none =>
      cases hstep
      simp [Call.events]
    | some events => exact covered_foldlM h (stateAfter_of_step hstep)

/-- **Descriptors.** After a run each open descriptor belongs to one client if and only if no
    call on an accepted descriptor has failed in it. -/
theorem owned_iff (user : σ) (calls : List (Call σ)) (s : ServerState σ)
    (hrun : calls.foldlM (step regexMatch pingPong) { user } = some s) :
    Owned s ↔ ∀ call ∈ calls, ∀ e ∈ call.events, ¬ Leaks e := by
  -- the induction carries the state before the calls that are left
  have h : ∀ s₀ : ServerState σ, Inv s₀ →
      calls.foldlM (step regexMatch pingPong) s₀ = some s →
      (Covered s ↔ Covered s₀ ∧ ∀ call ∈ calls, ∀ e ∈ call.events, ¬ Leaks e) := by
    clear hrun
    induction calls with
    | nil =>
      intro s₀ _ hrun
      cases hrun
      simp
    | cons call calls ih =>
      intro s₀ hinv hrun
      obtain ⟨s₁, hstep, hrest⟩ := Runs.foldlM_cons_eq_some.mp hrun
      rw [ih s₁ (hinv.step hstep) hrest, covered_step hinv hstep, and_assoc, List.forall_mem_cons]
  have hinit : Covered ({ user } : ServerState σ) := fun _ hfd => absurd hfd List.not_mem_nil
  rw [owned_iff_covered ((inv_init user).run hrun), h _ (inv_init user) hrun, and_iff_right hinit]

/-- Two connections are accepted, one of them is closed, and one more is refused. -/
theorem owned_two_clients :
    ∃ s : ServerState Unit, s.openFds = [6] ∧ Owned s := by
  let calls : List (Call Unit) :=
    [.poll (some [.server ⟨some 5, true, true⟩]), .poll (some [.server ⟨some 6, true, true⟩]),
      .closeConn 0 true, .poll (some [.server ⟨none, true, true⟩])]
  obtain ⟨s, hrun, hopen⟩ : ∃ s, calls.foldlM
      (step (fun p t => some (simpleMatch p t)) true) { user := () } = some s ∧
        s.openFds = [6] := ⟨_, rfl, by decide⟩
  exact ⟨s, hopen, (owned_iff () calls s hrun).mpr (by decide)⟩

/-- The descriptor of a connection for which `setsockopt(2)` or `epoll_ctl(2)` fails stays
    open. -/
theorem descriptor_leaks :
    let step := step (fun p t => some (simpleMatch p t)) true
    ∀ answer ∈ [AcceptAnswer.mk (some 5) false true, ⟨some 5, true, false⟩],
      ∃ s : ServerState Unit,
        [Call.poll (some [.server answer])].foldlM step { user := () } = some s ∧
        s.openFds = [5] ∧ s.pendingConns.map Client.id = [] ∧ ¬ Owned s := by
  intro step answer hanswer
  have hnot : ∀ s : ServerState Unit, s.openFds = [5] → s.pendingConns = [] → ¬ Owned s := by
    intro s hopen hpending howned
    obtain ⟨c, hc, -⟩ := howned 5 (by rw [hopen]; exact List.mem_cons_self)
    rw [hpending] at hc
    exact absurd hc List.not_mem_nil
  simp only [List.mem_cons, List.not_mem_nil, or_false] at hanswer
  rcases hanswer with rfl | rfl
  · exact ⟨_, rfl, rfl, rfl, hnot _ rfl rfl⟩
  · exact ⟨_, rfl, rfl, rfl, hnot _ rfl rfl⟩

end Httpoll.Native.Server
