import Httpoll.Native.GroupDescriptors
import Httpoll.Spec.BroadcastDelivery

/-!
# The descriptors of a group

A group holds the two ends of the shared pipe and of one pipe for each member. Whatever is
joined, left and broadcast in whatever order, and whatever the rest of the process opens and
closes meanwhile, each of them is closed once.

## Key results

- `descriptors_closed_once`: no call on a group, nor its destruction, closes a descriptor that
  is not its own or uses one that is not open, and after its destruction it has left none open
- `step_agrees`: the group is the same as with the contents of the pipes
-/

namespace Httpoll.Native.GroupDescriptors

open Ownership

variable {inUse others : List Int}

/-! ## Calls -/

private theorem owned_join (g : GroupDescriptors) (fds : Int × Int) (conn : Nat) :
    ([fds.1, fds.2] ++ g.owned).Perm
      { g with connections := g.connections ++ [(fds, conn)] }.owned := by
  apply List.perm_iff_count.mpr
  intro fd
  simp only [owned, List.flatMap_append, List.flatMap_singleton, List.count_append]
  omega

private theorem balanced_join {g : GroupDescriptors} (h : Balanced inUse g.owned others)
    {sockets : Nat → Int} {connection : Option Nat}
    (hsockets : ∀ conn ∈ connection, sockets conn ∈ inUse) {pipe : Option (Int × Int)}
    (hpipe : PipePossible inUse pipe) :
    ∃ r, g.join inUse sockets connection pipe = some r ∧ Balanced r.2.2 r.2.1.owned others := by
  unfold join
  cases connection with
  | none => exact ⟨_, rfl, h⟩
  | some conn =>
    have hsocket : useAll inUse [sockets conn] = some inUse :=
      useAll_eq_some.mpr ⟨List.forall_mem_singleton.mpr (hsockets conn rfl), rfl⟩
    dsimp only
    rw [hsocket]
    cases pipe with
    | none => exact ⟨_, rfl, h⟩
    | some fds =>
      obtain ⟨-, -, hfresh⟩ := hpipe fds rfl
      -- the new pipe is open when `fcntl` is called with it
      have hnew : useAll ([fds.1, fds.2] ++ inUse) [fds.1, fds.2] =
          some ([fds.1, fds.2] ++ inUse) :=
        useAll_eq_some.mpr ⟨fun _ hfd => List.mem_append_left inUse hfd, rfl⟩
      dsimp only [bind, Option.bind]
      rw [hnew]
      exact ⟨_, rfl, (h.acquire hfresh).congr (owned_join g fds conn)⟩

private theorem balanced_leave {g : GroupDescriptors} (h : Balanced inUse g.owned others)
    (connection : Nat) :
    ∃ r, g.leave inUse connection = some r ∧ Balanced r.2.2 r.2.1.owned others := by
  unfold leave
  cases hfind : g.connections.find? (·.2 == connection) with
  | none => exact ⟨_, rfl, h⟩
  | some entry =>
    obtain ⟨hconn, before, after, hsplit, hbefore⟩ := List.find?_eq_some_iff_append.mp hfind
    -- the entry that is found is the one that is erased
    have herase : g.connections.eraseP (·.2 == connection) = before ++ after := by
      rw [hsplit, List.eraseP_append_right _ (by simpa using hbefore), List.eraseP_cons, hconn]
      rfl
    have hperm : g.owned.Perm ([entry.1.1, entry.1.2] ++
        { g with connections := g.connections.eraseP (·.2 == connection) }.owned) := by
      rw [herase]
      apply List.perm_iff_count.mpr
      intro fd
      simp only [owned, hsplit, List.flatMap_append, List.flatMap_cons, List.count_append]
      omega
    obtain ⟨inUse', hrelease, h'⟩ := h.releaseAll hperm
    dsimp only
    rw [hrelease]
    exact ⟨_, rfl, h'⟩

/-- `Broadcast` uses descriptors of the group, and the sockets of its members. -/
theorem mem_broadcast (g : GroupDescriptors) (sockets : Nat → Int) (header data : Bool) :
    ∀ fd ∈ (g.broadcast sockets header data).2,
      fd ∈ g.owned ∨ ∃ entry ∈ g.connections, fd = sockets entry.2 := by
  intro fd hfd
  unfold broadcast at hfd
  split at hfd
  · exact absurd hfd List.not_mem_nil
  rename_i hpipe
  obtain ⟨hread, hwrite⟩ := not_or.mp hpipe
  -- the shared pipe was made, so the group owns it
  have hshared : g.pipefd.1 ∈ g.owned ∧ g.pipefd.2 ∈ g.owned := by
    simp [owned, hread, hwrite]
  -- and it owns the pipe of each member
  have hmember : ∀ entry ∈ g.connections, entry.1.1 ∈ g.owned ∧ entry.1.2 ∈ g.owned := by
    intro entry hentry
    have hmem : ∀ fd ∈ [entry.1.1, entry.1.2], fd ∈ g.owned := fun fd hfd =>
      List.mem_append_right _ (List.mem_flatMap.mpr ⟨entry, hentry, hfd⟩)
    exact ⟨hmem _ (by simp), hmem _ (by simp)⟩
  split at hfd
  · exact absurd hfd List.not_mem_nil
  split at hfd
  · obtain rfl := List.mem_singleton.mp hfd
    exact .inl hshared.2
  split at hfd
  · have heq : fd = g.pipefd.2 := by simpa using hfd
    exact .inl (heq ▸ hshared.2)
  · rcases List.mem_append.mp hfd with hfd | hfd
    · rcases List.mem_append.mp hfd with hfd | hfd
      · have heq : fd = g.pipefd.2 := by simpa using hfd
        exact .inl (heq ▸ hshared.2)
      · obtain ⟨entry, hentry, hfd⟩ := List.mem_flatMap.mp hfd
        rcases List.mem_cons.mp hfd with rfl | hfd
        · exact .inl hshared.1
        · obtain rfl := List.mem_singleton.mp hfd
          exact .inl (hmember entry hentry).2
    · obtain ⟨entry, hentry, hfd⟩ := List.mem_flatMap.mp hfd
      rcases List.mem_cons.mp hfd with rfl | hfd
      · exact .inl (hmember entry hentry).1
      · -- the last loop sends to the sockets
        exact .inr ⟨entry, hentry, List.mem_singleton.mp hfd⟩

/-- **One call** comes to no fault, and the group accounts for its descriptors. -/
theorem balanced_step {g : GroupDescriptors} (h : Balanced inUse g.owned others)
    {c : DescriptorCall} (hc : c.Possible g inUse) :
    ∃ s', g.step inUse c = some s' ∧ Balanced s'.2 s'.1.owned others := by
  obtain ⟨hpipe, -, hsockets⟩ := hc
  unfold DescriptorCall.socketsOf at hsockets
  unfold step call
  cases hcall : c.call with
  | join connection capacity =>
    rw [hcall] at hsockets
    have hopen : ∀ conn ∈ connection, c.sockets conn ∈ inUse := fun conn hconn =>
      hsockets _ (List.mem_map_of_mem (Option.mem_toList.mpr hconn))
    obtain ⟨r, hr, h'⟩ := balanced_join h hopen hpipe
    exact ⟨r.2, by dsimp only; rw [hr]; rfl, h'⟩
  | leave connection =>
    obtain ⟨r, hr, h'⟩ := balanced_leave h connection
    exact ⟨r.2, by dsimp only; rw [hr]; rfl, h'⟩
  | broadcast data msgType k =>
    rw [hcall] at hsockets
    -- what `Broadcast` uses is the group's own, or the socket of a member
    have hopen : ∀ fd ∈ (g.broadcast c.sockets k.header.succeeds k.data.succeeds).2,
        fd ∈ inUse := by
      intro fd hfd
      rcases mem_broadcast g _ _ _ fd hfd with hown | ⟨entry, hentry, rfl⟩
      · exact h.mem hown
      · exact hsockets _ (List.mem_map_of_mem hentry)
    dsimp only
    rw [useAll_eq_some.mpr ⟨hopen, rfl⟩]
    exact ⟨_, rfl, h⟩

/-- The constructor keeps both ends of its pipe: neither has the number -1. -/
private theorem owned_new {fds : Int × Int} (hpipe : PipePossible inUse (some fds)) :
    (new inUse (some fds)).1.owned = [fds.1, fds.2] := by
  obtain ⟨hread, hwrite, -⟩ := hpipe fds rfl
  have hread' : fds.1 ≠ -1 := by omega
  have hwrite' : fds.2 ≠ -1 := by omega
  simp [new, owned, hread', hwrite']

/-- The group is made. -/
theorem balanced_new (hnodup : inUse.Nodup) {pipe : Option (Int × Int)}
    (hpipe : PipePossible inUse pipe) :
    Balanced (new inUse pipe).2.2 (new inUse pipe).1.owned inUse := by
  have hempty : Balanced inUse [] inUse := ⟨List.Perm.refl _, hnodup⟩
  cases pipe with
  | none => exact hempty
  | some fds =>
    obtain ⟨-, -, hfresh⟩ := hpipe fds rfl
    rw [owned_new hpipe]
    exact hempty.acquire hfresh

/-- The constructor calls `fcntl(2)` with the pipe that it has made, or else with -1. -/
private theorem mem_fcntl {pipe : Option (Int × Int)} (hpipe : PipePossible inUse pipe) :
    ∀ fd ∈ (new inUse pipe).2.1, fd ∈ (new inUse pipe).1.owned ∨ pipe = none ∧ fd = -1 := by
  intro fd hfd
  cases pipe with
  | none => exact .inr ⟨rfl, by simpa [new] using hfd⟩
  | some fds =>
    left
    rw [owned_new hpipe]
    exact hfd

/-- **Each descriptor is closed once.** A group is made, anything is joined, left and broadcast
    while the rest of the process opens and closes descriptors of its own, and the group is
    destroyed. No call closes or uses a descriptor that is not open, as long as the sockets of
    the connections are that it joins and sends to. At any time the open descriptors are those of
    the group and those of the rest of the process, `Broadcast` would use no others than those of
    the group and the sockets of its members, and at the end only those of the rest are open. The
    constructor calls `fcntl(2)` with the pipe that it has made, or with -1 if there is none. -/
theorem descriptors_closed_once (inUse : List Int) (hnodup : inUse.Nodup)
    (pipe : Option (Int × Int)) (hpipe : PipePossible inUse pipe)
    (labels : List (Label DescriptorCall Int))
    (hpossible : Runs.Along (Ownership.step step)
      (Possible fun g inUse c => DescriptorCall.Possible g inUse c)
      ⟨(new inUse pipe).1, (new inUse pipe).2.2, inUse⟩ labels) :
    (∀ fd ∈ (new inUse pipe).2.1, fd ∈ (new inUse pipe).1.owned ∨ pipe = none ∧ fd = -1) ∧
      ∃ w, labels.foldlM (Ownership.step step)
          ⟨(new inUse pipe).1, (new inUse pipe).2.2, inUse⟩ = some w ∧
        Balanced w.inUse w.state.owned w.others ∧
        (∀ sockets header data, ∀ fd ∈ (w.state.broadcast sockets header data).2,
          fd ∈ w.state.owned ∨ ∃ entry ∈ w.state.connections, fd = sockets entry.2) ∧
        ∃ inUse', w.state.destroy w.inUse = some inUse' ∧ inUse'.Perm w.others := by
  have hstep : ∀ g inUse others c, True → Balanced inUse (owned g) others →
      DescriptorCall.Possible g inUse c →
      ∃ s', g.step inUse c = some s' ∧ True ∧ Balanced s'.2 s'.1.owned others := by
    intro g inUse others c _ h hc
    obtain ⟨s', hs', h'⟩ := balanced_step h hc
    exact ⟨s', hs', trivial, h'⟩
  obtain ⟨w, hrun, -, h⟩ := Ownership.run hstep trivial (balanced_new hnodup hpipe) hpossible
  refine ⟨mem_fcntl hpipe, w, hrun, h, mem_broadcast w.state, ?_⟩
  -- the destructor closes all that the group owns
  have hall : w.state.owned.Perm (w.state.owned ++ []) := by rw [List.append_nil]
  obtain ⟨inUse', hdestroy, h'⟩ := h.releaseAll hall
  exact ⟨inUse', hdestroy, h'.perm⟩

private def allMoved : Transfers where
  header := .accepts 2
  data := .accepts 2
  fill := fun _ => 4
  send := fun _ => 4

/-- The sockets of the three members, which are open all the time. -/
private def memberSockets (conn : Nat) : Int := 10 + conn

/-- Two members join while the process opens and closes a descriptor of its own, the first one
    leaves, and a third one gets the descriptors that were closed then. -/
private def joins : List (Label DescriptorCall Int) :=
  [.own { call := .join (some 1) (some 64), pipe := some (5, 6), sockets := memberSockets },
    .acquire [7],
    .own { call := .join (some 2) (some 64), pipe := some (8, 9), sockets := memberSockets },
    .own { call := .leave 1 }, .release 7,
    .own { call := .join (some 3) (some 64), pipe := some (6, 5), sockets := memberSockets },
    .own { call := .broadcast [104, 105] .kTypeText allMoved, sockets := memberSockets }]

theorem descriptors_closed_once_joins :
    ∃ w, joins.foldlM (Ownership.step step)
        ⟨(new [0, 11, 12, 13] (some (3, 4))).1, (new [0, 11, 12, 13] (some (3, 4))).2.2,
          [0, 11, 12, 13]⟩ = some w ∧
      Balanced w.inUse w.state.owned w.others ∧
      (∀ sockets header data, ∀ fd ∈ (w.state.broadcast sockets header data).2,
        fd ∈ w.state.owned ∨ ∃ entry ∈ w.state.connections, fd = sockets entry.2) ∧
      ∃ inUse', w.state.destroy w.inUse = some inUse' ∧ inUse'.Perm w.others :=
  (descriptors_closed_once [0, 11, 12, 13] (by decide) (some (3, 4)) (by decide) joins
    (by decide +kernel)).2

/-! ## The contents of the pipes -/

/-- The group with the contents of its pipes and the group with their descriptors are the same
    group. -/
structure Agrees (g : BroadcastGroup) (d : GroupDescriptors) : Prop where
  pipe : g.pipe.isSome = true ↔ d.pipefd.1 ≠ -1 ∧ d.pipefd.2 ≠ -1
  members : g.connections.map Member.conn = d.connections.map Prod.snd

private theorem agrees_new {pipe : Option (Int × Int)} (hpipe : PipePossible inUse pipe)
    {capacity : Option Nat} (hcapacity : pipe.isSome = capacity.isSome) :
    Agrees (BroadcastGroup.new capacity) (new inUse pipe).1 := by
  refine ⟨?_, by cases pipe <;> rfl⟩
  cases pipe with
  | none => cases capacity <;> simp_all [BroadcastGroup.new, new]
  | some fds =>
    -- `pipe(2)` gives descriptors that are not negative
    obtain ⟨hread, hwrite, -⟩ := hpipe fds rfl
    cases capacity with
    | none => cases hcapacity
    | some capacity =>
      refine ⟨fun _ => ⟨?_, ?_⟩, fun _ => rfl⟩
      · show fds.1 ≠ -1
        omega
      · show fds.2 ≠ -1
        omega

variable {g : BroadcastGroup} {d : GroupDescriptors}

private theorem Agrees.leave (h : Agrees g d) (connection : Nat)
    {r : Int × GroupDescriptors × List Int} (hr : d.leave inUse connection = some r) :
    (g.leave connection).1 = r.1 ∧ Agrees (g.leave connection).2 r.2.1 := by
  -- both find an entry or both find none
  have hmember : g.connections.any (·.conn == connection) = true ↔
      (d.connections.find? (·.2 == connection)).isSome = true := by
    rw [List.find?_isSome, List.any_eq_true]
    constructor
    · intro ⟨m, hm, hconn⟩
      have hmem := h.members ▸ List.mem_map_of_mem (f := Member.conn) hm
      obtain ⟨entry, hentry, heq⟩ := List.mem_map.mp hmem
      exact ⟨entry, hentry, by rw [heq]; exact hconn⟩
    · intro ⟨entry, hentry, hconn⟩
      have hmem := h.members ▸ List.mem_map_of_mem (f := Prod.snd) hentry
      obtain ⟨m, hm, heq⟩ := List.mem_map.mp hmem
      exact ⟨m, hm, by rw [heq]; exact hconn⟩
  have hleft := BroadcastGroup.map_conn_leave g connection
  obtain ⟨-, -, hpipe⟩ := BroadcastGroup.leave_sublist g connection
  unfold GroupDescriptors.leave at hr
  cases hfind : d.connections.find? (·.2 == connection) with
  | none =>
    rw [hfind] at hr hmember
    cases hr
    have hnone : ¬ g.connections.any (·.conn == connection) = true := fun hany =>
      Bool.false_ne_true (hmember.mp hany)
    unfold BroadcastGroup.leave
    rw [if_neg hnone]
    exact ⟨rfl, h⟩
  | some entry =>
    rw [hfind] at hr hmember
    obtain ⟨inUse', -, heq⟩ := Option.bind_eq_some_iff.mp hr
    cases heq
    have hsome : g.connections.any (·.conn == connection) = true := hmember.mpr rfl
    refine ⟨?_, ?_, ?_⟩
    · unfold BroadcastGroup.leave
      rw [if_pos hsome]
    · rw [hpipe]
      exact h.pipe
    · rw [hleft, h.members]
      show _ = (d.connections.eraseP _).map Prod.snd
      rw [List.erase_eq_eraseP', List.eraseP_map]
      rfl

private theorem Agrees.broadcast (h : Agrees g d) (data : Bytes) (msgType : WsFrameType)
    (k : Transfers) (sockets : Nat → Int) :
    (g.broadcast data msgType k).1 = (d.broadcast sockets k.header.succeeds k.data.succeeds).1 ∧
      Agrees (g.broadcast data msgType k).2 d := by
  have hmembers : g.connections = [] ↔ d.connections = [] := by
    rw [← List.map_eq_nil_iff (f := Member.conn), h.members, List.map_eq_nil_iff]
  refine ⟨?_, ?_, ?_⟩
  · unfold BroadcastGroup.broadcast GroupDescriptors.broadcast
    cases hpipe : g.pipe with
    | none =>
      -- without a pipe neither gets past the first test
      have hnone : d.pipefd.1 = -1 ∨ d.pipefd.2 = -1 := by
        by_contra hboth
        have hsome := h.pipe.mpr (not_or.mp hboth)
        rw [hpipe] at hsome
        cases hsome
      rw [if_pos hnone]
    | some pipe =>
      have hsome : ¬ (d.pipefd.1 = -1 ∨ d.pipefd.2 = -1) :=
        not_or.mpr (h.pipe.mp (by rw [hpipe]; rfl))
      rw [if_neg hsome]
      dsimp only
      by_cases hnil : g.connections = []
      · rw [if_pos hnil, if_pos (hmembers.mp hnil)]
      rw [if_neg hnil, if_neg (fun heq => hnil (hmembers.mpr heq))]
      -- the two writes
      cases k.header with
      | fail e => simp [WriteAnswer.succeeds]
      | accepts n =>
        cases k.data with
        | fail e => simp [WriteAnswer.succeeds]
        | accepts n' => simp [WriteAnswer.succeeds]
  · rw [BroadcastGroup.isSome_pipe_broadcast]
    exact h.pipe
  · rw [BroadcastGroup.map_conn_broadcast]
    exact h.members

/-- **One call** returns the same, and leaves the same group. -/
theorem step_agrees (h : Agrees g d) {c : DescriptorCall} (hc : c.Possible d inUse)
    {r : Int × GroupDescriptors × List Int} (hr : d.call inUse c = some r) :
    (g.call c.call).1 = r.1 ∧ Agrees (g.call c.call).2 r.2.1 := by
  unfold GroupDescriptors.call at hr
  unfold BroadcastGroup.call
  have hpossible := hc.2.1
  unfold DescriptorCall.MakesPipe at hpossible
  cases hcall : c.call with
  | join connection capacity =>
    rw [hcall] at hr hpossible
    dsimp only at hr
    unfold join at hr
    unfold BroadcastGroup.join
    cases connection with
    | none =>
      cases hr
      exact ⟨rfl, h⟩
    | some conn =>
      obtain ⟨_, -, hr⟩ := Option.bind_eq_some_iff.mp hr
      -- both groups get a pipe, or neither does
      cases hpipe : c.pipe with
      | none =>
        rw [hpipe] at hr hpossible
        cases hr
        cases capacity with
        | none => exact ⟨rfl, h⟩
        | some capacity => cases hpossible
      | some fds =>
        rw [hpipe] at hr hpossible
        obtain ⟨_, -, hr⟩ := Option.bind_eq_some_iff.mp hr
        cases hr
        cases capacity with
        | none => cases hpossible
        | some capacity =>
          refine ⟨rfl, h.pipe, ?_⟩
          show (g.connections ++ [_]).map Member.conn = (d.connections ++ [_]).map Prod.snd
          rw [List.map_append, List.map_append, h.members]
          rfl
  | leave connection =>
    rw [hcall] at hr
    exact h.leave connection hr
  | broadcast data msgType k =>
    rw [hcall] at hr
    obtain ⟨_, -, heq⟩ := Option.bind_eq_some_iff.mp hr
    obtain rfl := Option.some.inj heq
    exact h.broadcast data msgType k c.sockets

/-- **The two models of a group.** After the calls of a run, the group with the contents of its
    pipes is the group with their descriptors. -/
theorem agrees_run {inUse : List Int} {pipe : Option (Int × Int)}
    (hpipe : PipePossible inUse pipe) {capacity : Option Nat}
    (hcapacity : pipe.isSome = capacity.isSome) {labels : List (Label DescriptorCall Int)}
    (hpossible : Runs.Along (Ownership.step step)
      (Possible fun g inUse c => DescriptorCall.Possible g inUse c)
      ⟨(new inUse pipe).1, (new inUse pipe).2.2, inUse⟩ labels)
    {w : World GroupDescriptors Int}
    (hrun : labels.foldlM (Ownership.step step)
      ⟨(new inUse pipe).1, (new inUse pipe).2.2, inUse⟩ = some w) :
    Agrees ((BroadcastGroup.new capacity).after
      ((labels.flatMap Label.ownSteps).map DescriptorCall.call)) w.state := by
  have hstep : ∀ d inUse c g s', Agrees g d → DescriptorCall.Possible d inUse c →
      d.step inUse c = some s' →
      ∃ g', some (BroadcastGroup.call g c.call).2 = some g' ∧ Agrees g' s'.1 := by
    intro d inUse c g s' hagrees hc hs'
    obtain ⟨r, hr, rfl⟩ := Option.map_eq_some_iff.mp hs'
    exact ⟨_, rfl, (step_agrees hagrees hc hr).2⟩
  -- the steps of the rest of the process are no calls on the group
  obtain ⟨g, hg, hagrees⟩ := Ownership.simulation DescriptorCall.call
    (fun g call => some (BroadcastGroup.call g call).2) (Q := fun d g => Agrees g d) hstep
    (agrees_new hpipe hcapacity) hpossible hrun
  rw [BroadcastGroup.after, ← Option.some.inj (hg.symm.trans (List.foldlM_pure ..))]
  exact hagrees

end Httpoll.Native.GroupDescriptors
