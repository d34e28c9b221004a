import Httpoll.ForStd.Runs
import Httpoll.Native.BroadcastGroup

/-!
# What the members of a group get

The frames of a group go through its shared pipe to the pipes of the members, and from there
to their sockets. A transfer into a pipe that is cut short leaves a part of the frame behind:
in the shared pipe, where it comes in front of the next frame, or nowhere.

## Key results

- `isolation`: each socket gets a prefix of the frames, as long as no bytes go to a member
  after a transfer on their way was cut short
- `no_residue_iff`: a failed `Broadcast` leaves nothing for the next one to send, unless it has
  written the header without the data
- `delivery`: when no transfer is cut short, each socket gets every frame once for each entry
  of its connection, and all pipes are empty again
- `nothingSkipped_of_complete`: such a run meets the condition of `isolation`, if no connection
  joins that is a member
-/

namespace Httpoll.Native.BroadcastGroup

/-- A kernel that moves all that it is asked to, up to `n` bytes. -/
def movesUpTo (n : Nat) : Transfers :=
  { header := .accepts n, data := .accepts n, fill := fun _ => n, send := fun _ => n }

/-! ## The loops of `Broadcast` -/

/-- A member after the first loop. -/
theorem mem_fillMembers {total : Nat} {limit : Nat → Nat} {pipe : Fifo UInt8}
    {members : List Member} {m' : Member} (h : m' ∈ fillMembers total limit pipe members) :
    ∃ i, ∃ m : Member, members[i]? = some m ∧ m'.conn = m.conn ∧
      m'.pipe = m.pipe.offer (limit i) (pipe.items.take total) := by
  obtain ⟨i, hi, rfl⟩ := List.mem_mapIdx.mp h
  exact ⟨i, members[i], List.getElem?_eq_getElem hi, rfl, rfl⟩

theorem map_conn_fillMembers (total : Nat) (limit : Nat → Nat) (pipe : Fifo UInt8)
    (members : List Member) :
    (fillMembers total limit pipe members).map Member.conn = members.map Member.conn := by
  apply List.ext_getElem?
  intro i
  simp only [fillMembers, List.getElem?_map, List.getElem?_mapIdx, Option.map_map]
  rfl

theorem map_conn_sendMembers (total : Nat) (limit : Nat → Nat) (i : Nat) (members : List Member)
    (sockets : Nat → Bytes) :
    (sendMembers total limit i members sockets).1.map Member.conn = members.map Member.conn := by
  induction members generalizing i sockets with
  | nil => rfl
  | cons m ms ih => simp only [sendMembers, List.map_cons, ih]

/-- The sockets of other connections are left alone. -/
theorem sendMembers_other (total : Nat) (limit : Nat → Nat) (i : Nat) {members : List Member}
    (sockets : Nat → Bytes) {conn : Nat} (hconn : conn ∉ members.map Member.conn) :
    (sendMembers total limit i members sockets).2 conn = sockets conn := by
  induction members generalizing i sockets with
  | nil => rfl
  | cons m ms ih =>
    rw [List.map_cons, List.mem_cons, not_or] at hconn
    simp only [sendMembers]
    rw [ih _ _ hconn.2, Function.update_of_ne hconn.1]

/-- What leaves the pipe of a member goes to its socket. -/
theorem mem_sendMembers (total : Nat) (limit : Nat → Nat) (i : Nat) {members : List Member}
    (sockets : Nat → Bytes) (hnodup : (members.map Member.conn).Nodup) {m' : Member}
    (h : m' ∈ (sendMembers total limit i members sockets).1) :
    ∃ m ∈ members, m'.conn = m.conn ∧
      sockets m.conn <+: (sendMembers total limit i members sockets).2 m.conn ∧
      (sendMembers total limit i members sockets).2 m.conn ++ m'.pipe.items =
        sockets m.conn ++ m.pipe.items := by
  induction members generalizing i sockets with
  | nil => exact absurd h List.not_mem_nil
  | cons m ms ih =>
    rw [List.map_cons, List.nodup_cons] at hnodup
    simp only [sendMembers] at h ⊢
    -- later members have other sockets, so the one of `m` stays as it is after its turn
    rcases List.mem_cons.mp h with rfl | h
    · refine ⟨m, List.mem_cons_self, rfl, ?_, ?_⟩
      · rw [sendMembers_other _ _ _ _ hnodup.1, Function.update_self]
        exact List.prefix_append _ _
      · rw [sendMembers_other _ _ _ _ hnodup.1, Function.update_self, List.append_assoc,
          Fifo.pop_items, List.take_append_drop]
    · obtain ⟨n, hn, hconn, hpre, hitems⟩ := ih _ _ hnodup.2 h
      -- and the turn of `m` does not touch the sockets of later members
      have hne : n.conn ≠ m.conn := by
        intro heq
        exact hnodup.1 (heq ▸ List.mem_map_of_mem hn)
      rw [Function.update_of_ne hne] at hpre hitems
      exact ⟨n, List.mem_cons_of_mem m hn, hconn, hpre, hitems⟩

/-- What `Broadcast` does: it fails at one of its writes, or there is nobody to send to, or it
    gets to the loops. -/
theorem broadcast_cases (g : BroadcastGroup) (data : Bytes) (msgType : WsFrameType)
    (k : Transfers) :
    ((g.broadcast data msgType k).1 = -1 ∧
      (g.broadcast data msgType k).2.connections = g.connections ∧
      (g.broadcast data msgType k).2.sockets = g.sockets) ∨
    (g.connections = [] ∧ g.broadcast data msgType k = (0, g)) ∨
    ∃ pipe headerLimit dataLimit, g.pipe = some pipe ∧ k.header = .accepts headerLimit ∧
      k.data = .accepts dataLimit ∧
      g.broadcast data msgType k =
        (0, g.distribute
          ((pipe.offer headerLimit (makeWebsocketHeader data.length msgType)).offer dataLimit data)
          ((makeWebsocketHeader data.length msgType).length + data.length) k) := by
  unfold broadcast
  cases hpipe : g.pipe with
  | none => exact .inl ⟨rfl, rfl, rfl⟩
  | some pipe =>
    by_cases hnil : g.connections = []
    · refine .inr (.inl ⟨hnil, ?_⟩)
      simp only [hnil, if_true]
    · simp only [hnil, if_false]
      -- when one of the two writes fails, the members and the sockets are not touched
      cases hheader : k.header with
      | fail e => exact .inl ⟨rfl, rfl, rfl⟩
      | accepts headerLimit =>
        cases hdata : k.data with
        | fail e => exact .inl ⟨rfl, rfl, rfl⟩
        | accepts dataLimit =>
          exact .inr (.inr ⟨pipe, headerLimit, dataLimit, rfl, rfl, rfl, rfl⟩)

/-! ## `Join` and `Leave` -/

/-- A connection that is no member yet is a member once. -/
theorem nodup_join {members : List Member} (h : (members.map Member.conn).Nodup) {m : Member}
    (hnew : ∀ m' ∈ members, m'.conn ≠ m.conn) : ((members ++ [m]).map Member.conn).Nodup := by
  rw [List.map_append, List.nodup_append]
  refine ⟨h, List.pairwise_singleton _ _, ?_⟩
  intro c hc c' hc'
  obtain ⟨m', hm', rfl⟩ := List.mem_map.mp hc
  rw [List.mem_singleton.mp hc']
  exact hnew m' hm'

/-- `Leave` takes an entry out, if there is one, and does nothing else. -/
theorem leave_sublist (g : BroadcastGroup) (conn : Nat) :
    (g.leave conn).2.connections.Sublist g.connections ∧ (g.leave conn).2.sockets = g.sockets ∧
      (g.leave conn).2.pipe = g.pipe := by
  unfold leave
  split
  · exact ⟨List.eraseP_sublist, rfl, rfl⟩
  · exact ⟨List.Sublist.refl _, rfl, rfl⟩

/-! ## Back-pressure -/

/-- A group, with what its members should get. -/
structure Delivery where
  group : BroadcastGroup
  /-- What the socket of a connection had accepted when the connection joined. -/
  before : (conn : Nat) → Bytes
  /-- The frames that were broadcast since then. -/
  frames : (conn : Nat) → Bytes

namespace Delivery

/-- One call on the group. A frame is broadcast when `Broadcast` returns 0. -/
def step (d : Delivery) (call : GroupCall) : Option Delivery :=
  let (ret, group) := d.group.call call
  if ret = 0 then
    match call with
    | .join (some conn) _ =>
      some
        { group
          before := Function.update d.before conn (d.group.sockets conn)
          frames := Function.update d.frames conn [] }
    | .broadcast data msgType _ =>
      some { d with group, frames := fun conn => d.frames conn ++ wsFrame data msgType }
    | _ => some { d with group }
  else some { d with group }

theorem step_leave (d : Delivery) (conn : Nat) :
    d.step (.leave conn) = some { d with group := (d.group.leave conn).2 } := by
  show (if (d.group.leave conn).1 = 0 then some { d with group := (d.group.leave conn).2 }
    else some { d with group := (d.group.leave conn).2 }) = _
  exact ite_self _

theorem step_broadcast (d : Delivery) (data : Bytes) (msgType : WsFrameType) (k : Transfers) :
    d.step (.broadcast data msgType k) =
      if (d.group.broadcast data msgType k).1 = 0 then
        some
          { d with
            group := (d.group.broadcast data msgType k).2
            frames := fun conn => d.frames conn ++ wsFrame data msgType }
      else some { d with group := (d.group.broadcast data msgType k).2 } := rfl

/-- The shared pipe holds what the member still lacks of its frames, and nothing else. -/
def UpToDate (d : Delivery) (pipe : Fifo UInt8) (m : Member) : Prop :=
  d.group.sockets m.conn ++ m.pipe.items ++ pipe.items = d.before m.conn ++ d.frames m.conn

/-- No transfer moves bytes to a member after one on their way was cut short, and no connection
    joins that is a member. -/
def NothingSkipped (d : Delivery) : GroupCall → Prop
  | .join (some conn) _ => ∀ m ∈ d.group.connections, m.conn ≠ conn
  | .broadcast data msgType k =>
    ∀ pipe headerLimit dataLimit, d.group.pipe = some pipe → k.header = .accepts headerLimit →
      k.data = .accepts dataLimit →
      ∀ i m, d.group.connections[i]? = some m → k.fill i ≠ 0 →
        d.UpToDate pipe m ∧
          (pipe.TakesAll headerLimit (makeWebsocketHeader data.length msgType) ∨ dataLimit = 0)
  | _ => True

/-- What holds between the calls. -/
structure Inv (d : Delivery) : Prop where
  nodup : (d.group.connections.map Member.conn).Nodup
  prior : ∀ m ∈ d.group.connections, d.before m.conn <+: d.group.sockets m.conn
  inOrder : ∀ m ∈ d.group.connections,
    d.group.sockets m.conn ++ m.pipe.items <+: d.before m.conn ++ d.frames m.conn

/-- What both writes add to the shared pipe. -/
private theorem written_isPrefix {pipe : Fifo UInt8} {data : Bytes} {msgType : WsFrameType}
    {headerLimit dataLimit : Nat}
    (h : pipe.TakesAll headerLimit (makeWebsocketHeader data.length msgType) ∨ dataLimit = 0) :
    ((pipe.offer headerLimit (makeWebsocketHeader data.length msgType)).offer dataLimit data).items
      <+: pipe.items ++ wsFrame data msgType := by
  obtain ⟨header, hheader, hitems⟩ :=
    pipe.offer_isPrefix headerLimit (makeWebsocketHeader data.length msgType)
  -- either the header is in the pipe as a whole, or nothing comes after it
  rcases h with h | rfl
  · obtain ⟨payload, hpayload, hboth⟩ :=
      (pipe.offer headerLimit (makeWebsocketHeader data.length msgType)).offer_isPrefix
        dataLimit data
    rw [hboth, h.offer_items, List.append_assoc]
    refine (List.prefix_append_right_inj _).mpr ?_
    exact (List.prefix_append_right_inj _).mpr hpayload
  · rw [Fifo.offer_zero, hitems]
    exact (List.prefix_append_right_inj _).mpr (hheader.trans (List.prefix_append _ _))

/-- The loops keep the invariant, for a shared pipe with `pipe` in it. -/
private theorem Inv.distribute {d : Delivery} (h : d.Inv) {pipe : Fifo UInt8} {frame : Bytes}
    {total : Nat} {k : Transfers}
    (hfill : ∀ i m, d.group.connections[i]? = some m → k.fill i ≠ 0 →
      d.group.sockets m.conn ++ m.pipe.items ++ pipe.items <+:
        d.before m.conn ++ d.frames m.conn ++ frame) :
    Inv
      { d with
        group := d.group.distribute pipe total k
        frames := fun conn => d.frames conn ++ frame } := by
  have hconns : (fillMembers total k.fill pipe d.group.connections).map Member.conn =
      d.group.connections.map Member.conn := map_conn_fillMembers _ _ _ _
  have hnodup := hconns.symm ▸ h.nodup
  -- what a member has after the first loop
  have hfilled : ∀ m' ∈ fillMembers total k.fill pipe d.group.connections,
      d.before m'.conn <+: d.group.sockets m'.conn ∧
        d.group.sockets m'.conn ++ m'.pipe.items <+:
          d.before m'.conn ++ (d.frames m'.conn ++ frame) := by
    intro m' hm'
    obtain ⟨i, m, hi, hconn, hpipe⟩ := mem_fillMembers hm'
    have hm : m ∈ d.group.connections := List.mem_of_getElem? hi
    rw [hconn, hpipe, ← List.append_assoc]
    refine ⟨h.prior m hm, ?_⟩
    -- a member that is passed over falls behind, but its bytes stay in order
    by_cases hzero : k.fill i = 0
    · rw [hzero, Fifo.offer_zero]
      exact (h.inOrder m hm).trans (List.prefix_append _ _)
    · -- what goes into its pipe is the beginning of what the shared pipe holds
      obtain ⟨moved, hmoved, hitems⟩ := m.pipe.offer_isPrefix (k.fill i) (pipe.items.take total)
      rw [hitems, ← List.append_assoc]
      refine List.IsPrefix.trans ?_ (hfill i m hi hzero)
      exact (List.prefix_append_right_inj _).mpr (hmoved.trans (List.take_prefix _ _))
  constructor
  · show ((sendMembers total k.send 0 _ _).1.map Member.conn).Nodup
    rw [map_conn_sendMembers]
    exact hnodup
  · intro m' hm'
    obtain ⟨m, hm, hconn, hsent, -⟩ := mem_sendMembers total k.send 0 d.group.sockets hnodup hm'
    rw [hconn]
    exact (hfilled m hm).1.trans hsent
  · intro m' hm'
    obtain ⟨m, hm, hconn, -, hitems⟩ := mem_sendMembers total k.send 0 d.group.sockets hnodup hm'
    -- sending moves bytes from the pipe to the socket, and keeps the two together
    have horder := (hfilled m hm).2
    rw [← hitems] at horder
    rw [hconn]
    exact horder

/-- A call after which the members and the sockets are the same. -/
private theorem Inv.unchanged {d : Delivery} (h : d.Inv) {group : BroadcastGroup}
    (hconns : group.connections = d.group.connections)
    (hsockets : group.sockets = d.group.sockets) :
    Inv { d with group } := by
  constructor
  · rw [hconns]
    exact h.nodup
  · rw [hconns, hsockets]
    exact h.prior
  · rw [hconns, hsockets]
    exact h.inOrder

/-- A new member. -/
private theorem Inv.join {d : Delivery} (h : d.Inv) {conn : Nat} (capacity : Nat)
    (hnew : ∀ m ∈ d.group.connections, m.conn ≠ conn) :
    Inv
      { group := (d.group.join (some conn) (some capacity)).2
        before := Function.update d.before conn (d.group.sockets conn)
        frames := Function.update d.frames conn [] } := by
  have hmember : ∀ m ∈ d.group.connections ++ [{ pipe := .empty capacity, conn }],
      m ∈ d.group.connections ∧ m.conn ≠ conn ∨ m = { pipe := .empty capacity, conn } := by
    intro m hm
    rcases List.mem_append.mp hm with hm | hm
    · exact .inl ⟨hm, hnew m hm⟩
    · exact .inr (List.mem_singleton.mp hm)
  constructor
  · exact nodup_join h.nodup hnew
  · intro m hm
    rcases hmember m hm with ⟨hm, hne⟩ | rfl
    · simp only [Function.update_of_ne hne]
      exact h.prior m hm
    · -- nothing was broadcast since the new member has joined
      simp only [Function.update_self]
      exact List.prefix_rfl
  · intro m hm
    rcases hmember m hm with ⟨hm, hne⟩ | rfl
    · simp only [Function.update_of_ne hne]
      exact h.inOrder m hm
    · simp only [Function.update_self, Fifo.empty_items, List.append_nil]
      exact List.prefix_rfl

private theorem Inv.leave {d : Delivery} (h : d.Inv) (conn : Nat) :
    Inv { d with group := (d.group.leave conn).2 } := by
  obtain ⟨hsub, hsockets, -⟩ := leave_sublist d.group conn
  constructor
  · exact (hsub.map Member.conn).nodup h.nodup
  · rw [hsockets]
    exact fun m hm => h.prior m (hsub.mem hm)
  · rw [hsockets]
    exact fun m hm => h.inOrder m (hsub.mem hm)

/-- One call. -/
private theorem Inv.step {d d' : Delivery} (h : d.Inv) {call : GroupCall}
    (hskip : d.NothingSkipped call) (hstep : d.step call = some d') : d'.Inv := by
  cases call with
  | leave conn =>
    rw [step_leave] at hstep
    obtain rfl := Option.some.inj hstep
    exact h.leave conn
  | join connection capacity =>
    cases connection with
    | none =>
      obtain rfl := Option.some.inj hstep
      exact h
    | some conn =>
      cases capacity with
      | none =>
        obtain rfl := Option.some.inj hstep
        exact h
      | some capacity =>
        obtain rfl := Option.some.inj hstep
        exact h.join capacity hskip
  | broadcast data msgType k =>
    rw [step_broadcast] at hstep
    rcases broadcast_cases d.group data msgType k with ⟨hret, hconns, hsockets⟩ | ⟨hnil, heq⟩ |
      ⟨pipe, headerLimit, dataLimit, hpipe, hheader, hdata, heq⟩
    · -- one of the writes to the shared pipe has failed
      rw [if_neg (by rw [hret]; decide)] at hstep
      obtain rfl := Option.some.inj hstep
      exact h.unchanged hconns hsockets
    · rw [heq, if_pos rfl] at hstep
      obtain rfl := Option.some.inj hstep
      -- there are no members
      constructor
      · exact h.nodup
      · exact h.prior
      · intro m hm
        rw [hnil] at hm
        exact absurd hm List.not_mem_nil
    · -- the frame counts as broadcast, whether its transfers were complete or not
      rw [heq, if_pos rfl] at hstep
      obtain rfl := Option.some.inj hstep
      refine h.distribute ?_
      intro i m hi hne
      obtain ⟨hup, hwhole⟩ := hskip pipe headerLimit dataLimit hpipe hheader hdata i m hi hne
      rw [← hup, List.append_assoc _ pipe.items]
      exact (List.prefix_append_right_inj _).mpr (written_isPrefix hwhole)

/-- **Isolation.** What the socket of a member has got from the group since the member joined
    is a prefix of the frames that were broadcast since then, in every run in which no bytes
    go to a member after a transfer on their way was cut short. -/
theorem isolation (capacity : Option Nat) (calls : List GroupCall) (d : Delivery)
    (hskip : Runs.Along step NothingSkipped ⟨.new capacity, fun _ => [], fun _ => []⟩ calls)
    (h : calls.foldlM step ⟨.new capacity, fun _ => [], fun _ => []⟩ = some d) :
    ∀ m ∈ d.group.connections, ∃ received,
      d.group.sockets m.conn = d.before m.conn ++ received ∧ received <+: d.frames m.conn := by
  have hinit : Inv ⟨.new capacity, fun _ => [], fun _ => []⟩ :=
    ⟨List.nodup_nil, fun _ hm => absurd hm List.not_mem_nil, fun _ hm => absurd hm List.not_mem_nil⟩
  have hinv : d.Inv :=
    Runs.invariant (fun _ _ _ hI hP hstep => hI.step hP hstep) hinit hskip h
  intro m hm
  obtain ⟨received, hreceived⟩ := hinv.prior m hm
  refine ⟨received, hreceived.symm, ?_⟩
  -- what the socket had before the join is the same on both sides
  have horder := hinv.inOrder m hm
  rw [← hreceived, List.append_assoc, List.prefix_append_right_inj] at horder
  exact (List.prefix_append _ _).trans horder

/-- A `Broadcast` into which the shared pipe fits, when all members are up to date. -/
private theorem nothingSkipped_broadcast {d : Delivery} {pipe : Fifo UInt8} {data : Bytes}
    {msgType : WsFrameType} {k : Transfers} {limit : Nat} (hpipe : d.group.pipe = some pipe)
    (hheader : k.header = .accepts limit) (hup : ∀ m ∈ d.group.connections, d.UpToDate pipe m)
    (htakes : pipe.TakesAll limit (makeWebsocketHeader data.length msgType)) :
    d.NothingSkipped (.broadcast data msgType k) := by
  intro pipe' headerLimit dataLimit hpipe' hheader' _ i m hi _
  rw [hpipe, Option.some.injEq] at hpipe'
  rw [hheader, WriteAnswer.accepts.injEq] at hheader'
  subst hpipe' hheader'
  exact ⟨hup m (List.mem_of_getElem? hi), .inl htakes⟩

/-- A member whose socket is slow, and another one. -/
theorem isolation_slow_member :
    ∃ calls : List GroupCall, ∃ d : Delivery,
      calls.foldlM step ⟨.new (some 64), fun _ => [], fun _ => []⟩ = some d ∧
      d.group.connections.map Member.conn = [1, 2] ∧
      d.frames 1 = [0x81, 2] ++ ascii "hi" ++ [0x81, 1] ++ ascii "!" ∧
      d.group.sockets 1 = [0x81, 2] ++ ascii "h" ∧
      ∀ m ∈ d.group.connections, ∃ received,
        d.group.sockets m.conn = d.before m.conn ++ received ∧ received <+: d.frames m.conn := by
  let calls : List GroupCall :=
    [.join (some 1) (some 64), .join (some 2) (some 64),
      .broadcast (ascii "hi") .kTypeText
        { movesUpTo 64 with send := fun i => if i = 0 then 3 else 64 },
      .broadcast (ascii "!") .kTypeText
        { movesUpTo 64 with send := fun i => if i = 0 then 0 else 64 }]
  have hskip : Runs.Along step NothingSkipped ⟨.new (some 64), fun _ => [], fun _ => []⟩ calls := by
    refine ⟨fun _ hm => absurd hm List.not_mem_nil, ?_⟩
    rintro d₁ ⟨⟩
    refine ⟨by unfold NothingSkipped; decide, ?_⟩
    rintro d₂ ⟨⟩
    refine ⟨nothingSkipped_broadcast rfl rfl (by unfold UpToDate; decide) (by decide), ?_⟩
    rintro d₃ ⟨⟩
    refine ⟨nothingSkipped_broadcast rfl rfl (by unfold UpToDate; decide) (by decide), ?_⟩
    rintro d₄ ⟨⟩
    trivial
  exact ⟨calls, _, rfl, by decide, by decide, by decide, isolation (some 64) calls _ hskip rfl⟩

/-- The splice to the second member fails: the first one gets the rest of the frame again. -/
theorem stale_bytes :
    ∃ d : Delivery,
      [GroupCall.join (some 1) (some 64), .join (some 2) (some 64),
          .broadcast (ascii "hi") .kTypeText
            { movesUpTo 64 with fill := fun i => if i = 0 then 64 else 0 },
          .broadcast (ascii "!") .kTypeText (movesUpTo 64)].foldlM step
        ⟨.new (some 64), fun _ => [], fun _ => []⟩ = some d ∧
      d.before 1 = [] ∧ d.frames 1 = [0x81, 2] ++ ascii "hi" ++ [0x81, 1] ++ ascii "!" ∧
      d.group.connections.map Member.conn = [1, 2] ∧
      d.group.sockets 1 = [0x81, 2] ++ ascii "hi" ++ [0x81, 2] ++ ascii "h" ∧
      ¬ d.group.sockets 1 <+: d.frames 1 :=
  ⟨_, rfl, by decide, by decide, by decide, by decide, by decide⟩

end Delivery

/-! ## Failed writes -/

/-- The loops of `Broadcast` work on what its own two writes have put into the shared pipe. -/
def SendsOwnFrame (g : BroadcastGroup) (data : Bytes) (msgType : WsFrameType) (k : Transfers) :
    Prop :=
  (g.broadcast data msgType k).1 = 0 → g.connections ≠ [] →
    ∃ (pipe : Fifo UInt8) (i j : Nat),
      pipe.items = (makeWebsocketHeader data.length msgType).take i ++ data.take j ∧
      (g.broadcast data msgType k).2 =
        g.distribute pipe ((makeWebsocketHeader data.length msgType).length + data.length) k

/-- A `Broadcast` to `g` that gives `g'` leaves no bytes behind. -/
structure NoResidue (g g' : BroadcastGroup) : Prop where
  shared : ∀ pipe, g'.pipe = some pipe → pipe.items = []
  connections : g'.connections = g.connections
  sockets : g'.sockets = g.sockets
  next : ∀ data msgType k, g'.SendsOwnFrame data msgType k

/-- The shared pipe takes some of the header, and the data is not written. -/
def HeaderAlone (g : BroadcastGroup) (k : Transfers) : Prop :=
  g.connections ≠ [] ∧ (∃ pipe, g.pipe = some pipe ∧ pipe.capacity ≠ 0) ∧
    (∃ n, k.header = .accepts n ∧ n ≠ 0) ∧ ∃ e, k.data = .fail e

theorem sendsOwnFrame_of_nil {g : BroadcastGroup}
    (hshared : ∀ pipe, g.pipe = some pipe → pipe.items = []) (data : Bytes)
    (msgType : WsFrameType) (k : Transfers) : g.SendsOwnFrame data msgType k := by
  intro hret hnil
  rcases broadcast_cases g data msgType k with ⟨hfail, -, -⟩ | ⟨h, -⟩ |
    ⟨pipe, headerLimit, dataLimit, hpipe, -, -, heq⟩
  · rw [hfail] at hret
    exact absurd hret (by decide)
  · exact absurd h hnil
  · have hitems : ((pipe.offer headerLimit (makeWebsocketHeader data.length msgType)).offer
        dataLimit data).items =
        pipe.items ++ (makeWebsocketHeader data.length msgType).take _ ++ data.take _ := rfl
    rw [hshared pipe hpipe, List.nil_append] at hitems
    exact ⟨_, _, _, hitems, congrArg Prod.snd heq⟩

/-- What a failed `Broadcast` does to the group: nothing, or it puts the header into the
    shared pipe. -/
theorem broadcast_failed {g : BroadcastGroup} {data : Bytes} {msgType : WsFrameType}
    {k : Transfers} (h : (g.broadcast data msgType k).1 = -1) :
    (g.broadcast data msgType k).2 = g ∨
      ∃ pipe n e, g.pipe = some pipe ∧ g.connections ≠ [] ∧ k.header = .accepts n ∧
        k.data = .fail e ∧ (g.broadcast data msgType k).2 =
          { g with pipe := some (pipe.offer n (makeWebsocketHeader data.length msgType)) } := by
  unfold broadcast at h ⊢
  cases hpipe : g.pipe with
  | none => exact .inl rfl
  | some pipe =>
    simp only [hpipe] at h
    by_cases hnil : g.connections = []
    · rw [if_pos hnil] at h
      exact absurd (show (0 : Int) = -1 from h) (by decide)
    · simp only [hnil, if_false] at h ⊢
      -- of the two writes, only a failing second one leaves something behind
      cases hheader : k.header with
      | fail e => exact .inl rfl
      | accepts n =>
        cases hdata : k.data with
        | fail e => exact .inr ⟨pipe, n, e, rfl, hnil, rfl, rfl, rfl⟩
        | accepts m =>
          simp only [hheader, hdata] at h
          exact absurd h (by decide)

/-- **Failed broadcasts.** A `Broadcast` that returns -1 leaves the shared pipe empty, the
    members and their sockets as they were, and nothing that the next one would send, exactly
    when it has not written the header without the data. -/
theorem no_residue_iff {g : BroadcastGroup}
    (hshared : ∀ pipe, g.pipe = some pipe → pipe.items = []) (data : Bytes)
    (msgType : WsFrameType) (k : Transfers) :
    ((g.broadcast data msgType k).1 = -1 → g.NoResidue (g.broadcast data msgType k).2) ↔
      ¬ g.HeaderAlone k := by
  constructor
  · rintro h ⟨hnil, ⟨pipe, hpipe, hcapacity⟩, ⟨n, hheader, hn⟩, e, hdata⟩
    have hbroadcast : g.broadcast data msgType k = (-1, { g with
        pipe := some (pipe.offer n (makeWebsocketHeader data.length msgType)) }) := by
      simp only [broadcast, hpipe, hnil, if_false, hheader, hdata]
    rw [hbroadcast] at h
    -- the pipe has room, and the header is not empty
    have hitems := (h rfl).shared _ rfl
    rw [Fifo.offer_items_eq_nil (hshared pipe hpipe)] at hitems
    rcases hitems with h | h | h
    · exact hn h
    · exact hcapacity h
    · exact makeWebsocketHeader_ne_nil _ _ h
  · intro h hret
    rcases broadcast_failed hret with heq | ⟨pipe, n, e, hpipe, hnil, hheader, hdata, heq⟩
    · rw [heq]
      exact ⟨hshared, rfl, rfl, sendsOwnFrame_of_nil hshared⟩
    · have hitems : (pipe.offer n (makeWebsocketHeader data.length msgType)).items = [] := by
        rw [Fifo.offer_items_eq_nil (hshared pipe hpipe)]
        by_contra hne
        rw [not_or, not_or] at hne
        exact h ⟨hnil, ⟨pipe, hpipe, hne.2.1⟩, ⟨n, hheader, hne.1⟩, e, hdata⟩
      have hempty : ∀ pipe', some (pipe.offer n (makeWebsocketHeader data.length msgType)) =
          some pipe' → pipe'.items = [] := by
        rintro _ ⟨⟩
        exact hitems
      rw [heq]
      exact ⟨hempty, rfl, rfl, sendsOwnFrame_of_nil hempty⟩

/-- The header does not get into the shared pipe: nothing does. -/
theorem no_residue_header_fails :
    let g := (new (some 64)).after [.join (some 1) (some 64)]
    let k := { movesUpTo 64 with header := .fail .EAGAIN }
    (g.broadcast (ascii "hi") .kTypeText k).1 = -1 ∧
      g.NoResidue (g.broadcast (ascii "hi") .kTypeText k).2 := by
  intro g k
  have hshared : ∀ pipe, g.pipe = some pipe → pipe.items = [] := by
    rintro _ ⟨⟩
    rfl
  have hheader : ¬ g.HeaderAlone k := by
    rintro ⟨-, -, ⟨n, hn, -⟩, -⟩
    cases hn
  exact ⟨rfl, (no_residue_iff hshared _ _ _).mpr hheader rfl⟩

/-- The data does not fit behind the header into a pipe of one page. The next frame comes after
    that header, and the last splice stops before it. -/
theorem header_left_behind :
    let g := (new (some 4096)).after [.join (some 1) (some 4096)]
    let data : Bytes := List.replicate 4095 0
    let failed := g.broadcast data .kTypeText { movesUpTo 4096 with data := .fail .EAGAIN }
    let next := failed.2.broadcast (ascii "hi") .kTypeText (movesUpTo 4096)
    g.pipe.map Fifo.items = some [] ∧ failed.1 = -1 ∧
      failed.2.pipe.map Fifo.items = some [0x81, 126, 0x0f, 0xff] ∧
      next.1 = 0 ∧ next.2.sockets 1 = [0x81, 126, 0x0f, 0xff] ∧
      wsFrame (ascii "hi") .kTypeText = [0x81, 2] ++ ascii "hi" ∧
      ¬ g.NoResidue failed.2 := by
  intro g data failed next
  have hleft : failed.2.pipe.map Fifo.items = some [0x81, 126, 0x0f, 0xff] := by decide +kernel
  refine ⟨by decide, by decide +kernel, hleft, by decide +kernel, by decide +kernel, by decide, ?_⟩
  intro h
  obtain ⟨pipe, hpipe, hitems⟩ := Option.map_eq_some_iff.mp hleft
  -- but without a residue the pipe would be as it was before, empty
  rw [h.shared pipe hpipe] at hitems
  exact absurd hitems (by decide)

/-! ## Complete transfers -/

/-- What a group is for: its entries, and what each connection has received. -/
structure Ideal where
  entries : List Nat
  received : (conn : Nat) → Bytes

/-- One call. A frame goes to a connection once for each of its entries. -/
def Ideal.call (s : Ideal) : GroupCall → Ideal
  | .join (some conn) (some _) => { s with entries := s.entries ++ [conn] }
  | .join _ _ => s
  | .leave conn => { s with entries := s.entries.erase conn }
  | .broadcast data msgType _ =>
    { s with
      received := fun conn =>
        s.received conn ++ (List.replicate (s.entries.count conn) (wsFrame data msgType)).flatten }

theorem map_conn_leave (g : BroadcastGroup) (conn : Nat) :
    (g.leave conn).2.connections.map Member.conn = (g.connections.map Member.conn).erase conn := by
  unfold leave
  split
  · rw [List.erase_eq_eraseP', List.eraseP_map]
    rfl
  · rename_i hnone
    rw [List.erase_of_not_mem]
    intro hmem
    obtain ⟨m, hm, hconn⟩ := List.mem_map.mp hmem
    exact hnone (List.any_eq_true.mpr ⟨m, hm, beq_iff_eq.mpr hconn⟩)

theorem map_conn_broadcast (g : BroadcastGroup) (data : Bytes) (msgType : WsFrameType)
    (k : Transfers) :
    (g.broadcast data msgType k).2.connections.map Member.conn =
      g.connections.map Member.conn := by
  rcases broadcast_cases g data msgType k with ⟨-, hconns, -⟩ | ⟨-, heq⟩ |
    ⟨pipe, headerLimit, dataLimit, -, -, -, heq⟩
  · rw [hconns]
  · rw [heq]
  · rw [heq]
    show (sendMembers _ _ _ _ _).1.map Member.conn = _
    rw [map_conn_sendMembers, map_conn_fillMembers]

theorem isSome_pipe_broadcast (g : BroadcastGroup) (data : Bytes) (msgType : WsFrameType)
    (k : Transfers) : (g.broadcast data msgType k).2.pipe.isSome = g.pipe.isSome := by
  unfold broadcast
  split
  · rfl
  · rename_i hpipe
    split
    · rfl
    dsimp only
    split
    · rfl
    -- each `return` behind the first write leaves a pipe in its place
    · split <;> rw [hpipe] <;> rfl

/-- The entries of a group are those of what it is for, whatever its transfers do. -/
theorem map_conn_after {g : BroadcastGroup} {s : Ideal}
    (h : g.connections.map Member.conn = s.entries) (calls : List GroupCall) :
    (g.after calls).connections.map Member.conn = (calls.foldl Ideal.call s).entries := by
  refine List.foldl_rel (r := fun (g : BroadcastGroup) (s : Ideal) =>
    g.connections.map Member.conn = s.entries) h ?_
  intro call _ g s h
  cases call with
  | join connection capacity =>
    cases connection with
    | none => exact h
    | some conn =>
      cases capacity with
      | none => exact h
      | some capacity =>
        -- `Join` puts the new member last
        show (g.connections ++ [_]).map Member.conn = s.entries ++ [conn]
        rw [List.map_append, h]
        rfl
  | leave conn => exact (map_conn_leave g conn).trans (congrArg (List.erase · conn) h)
  | broadcast data msgType k => exact (map_conn_broadcast g data msgType k).trans h

/-- A call whose pipe is made, with room for `room` bytes, or whose transfers are all complete
    for a frame of at most `room` bytes. -/
def Complete (room : Nat) : GroupCall → Prop
  | .join _ capacity => ∃ c, capacity = some c ∧ room ≤ c
  | .leave _ => True
  | .broadcast data msgType k =>
    (wsFrame data msgType).length ≤ room ∧
      (∃ n, k.header = .accepts n ∧ (makeWebsocketHeader data.length msgType).length ≤ n) ∧
      (∃ n, k.data = .accepts n ∧ data.length ≤ n) ∧
      ∀ i, (wsFrame data msgType).length ≤ k.fill i ∧ (wsFrame data msgType).length ≤ k.send i

theorem complete_movesUpTo {room : Nat} {data : Bytes} {msgType : WsFrameType}
    (hfits : (wsFrame data msgType).length ≤ room) :
    Complete room (.broadcast data msgType (movesUpTo room)) := by
  have hlength : (makeWebsocketHeader data.length msgType).length + data.length =
      (wsFrame data msgType).length := List.length_append.symm
  exact ⟨hfits, ⟨room, rfl, by omega⟩, ⟨room, rfl, by omega⟩, fun _ => ⟨hfits, hfits⟩⟩

/-- The group does what it is for, and nothing is left in its pipes. -/
structure Refines (room : Nat) (g : BroadcastGroup) (s : Ideal) : Prop where
  shared : ∃ pipe, g.pipe = some pipe ∧ pipe.items = [] ∧ room ≤ pipe.capacity
  pipes : ∀ m ∈ g.connections, m.pipe.items = [] ∧ room ≤ m.pipe.capacity
  entries : g.connections.map Member.conn = s.entries
  received : ∀ conn, g.sockets conn = s.received conn

/-- An empty pipe takes what fits. -/
private theorem takesAll_of_nil {pipe : Fifo UInt8} (hpipe : pipe.items = []) {limit : Nat}
    {xs : Bytes} (hlimit : xs.length ≤ limit) (hroom : xs.length ≤ pipe.capacity) :
    pipe.TakesAll limit xs := by
  refine ⟨hlimit, ?_⟩
  rw [Fifo.room, hpipe, List.length_nil, Nat.sub_zero]
  exact hroom

/-- The last loop, when the pipe of every member holds the frame. -/
private theorem sendMembers_complete {frame : Bytes} {limit : Nat → Nat}
    (hlimit : ∀ i, frame.length ≤ limit i) (i : Nat) {members : List Member}
    (hpipes : ∀ m ∈ members, m.pipe.items = frame) (sockets : Nat → Bytes) :
    (∀ m' ∈ (sendMembers frame.length limit i members sockets).1,
      m'.pipe.items = [] ∧ ∃ m ∈ members, m'.pipe.capacity = m.pipe.capacity) ∧
    ∀ conn, (sendMembers frame.length limit i members sockets).2 conn = sockets conn ++
      (List.replicate ((members.map Member.conn).count conn) frame).flatten := by
  induction members generalizing i sockets with
  | nil =>
    refine ⟨fun _ h => absurd h List.not_mem_nil, ?_⟩
    intro conn
    simp [sendMembers]
  | cons m ms ih =>
    have hm := hpipes m List.mem_cons_self
    -- the kernel moves all that is in the pipe of the first member
    have hmoved : min (limit i) (min frame.length m.pipe.items.length) = frame.length := by
      rw [hm, Nat.min_self, Nat.min_eq_right (hlimit i)]
    obtain ⟨hempty, hsockets⟩ := ih (i + 1) (fun m' hm' => hpipes m' (List.mem_cons_of_mem m hm'))
      (Function.update sockets m.conn (sockets m.conn ++ frame))
    simp only [sendMembers, hmoved]
    rw [hm, List.take_length]
    constructor
    · intro m' hm'
      rcases List.mem_cons.mp hm' with rfl | hm'
      · refine ⟨?_, m, List.mem_cons_self, rfl⟩
        rw [Fifo.pop_items, hm, List.drop_length]
      · obtain ⟨hnil, n, hn, hcapacity⟩ := hempty m' hm'
        exact ⟨hnil, n, List.mem_cons_of_mem m hn, hcapacity⟩
    · intro conn
      rw [hsockets, List.map_cons]
      -- each entry of a connection adds one frame to what its socket gets
      by_cases hconn : conn = m.conn
      · rw [hconn, Function.update_self, List.count_cons_self, List.replicate_succ,
          List.flatten_cons, List.append_assoc]
      · rw [Function.update_of_ne hconn, List.count_cons_of_ne (Ne.symm hconn)]

/-- Both writes, when they are complete. -/
private theorem written_complete {pipe : Fifo UInt8} (hpipe : pipe.items = []) {data : Bytes}
    {msgType : WsFrameType} (hroom : (wsFrame data msgType).length ≤ pipe.capacity)
    {headerLimit dataLimit : Nat}
    (hheader : (makeWebsocketHeader data.length msgType).length ≤ headerLimit)
    (hdata : data.length ≤ dataLimit) :
    ((pipe.offer headerLimit (makeWebsocketHeader data.length msgType)).offer dataLimit
      data).items = wsFrame data msgType := by
  rw [wsFrame, List.length_append] at hroom
  have hfirst : pipe.TakesAll headerLimit (makeWebsocketHeader data.length msgType) :=
    takesAll_of_nil hpipe hheader (by omega)
  have hitems := hfirst.offer_items
  rw [hpipe, List.nil_append] at hitems
  -- behind the header there is room for the data
  have hsecond : (pipe.offer headerLimit (makeWebsocketHeader data.length msgType)).TakesAll
      dataLimit data := by
    refine ⟨hdata, ?_⟩
    rw [Fifo.room, hitems, Fifo.offer_capacity]
    omega
  rw [hsecond.offer_items, hitems]
  rfl

/-- The loops, with the frame in the shared pipe. -/
private theorem Refines.distribute {room : Nat} {g : BroadcastGroup} {s : Ideal}
    (h : Refines room g s) (hnil : g.connections ≠ []) {pipe : Fifo UInt8} {frame : Bytes}
    {k : Transfers} (hpipe : pipe.items = frame) (hcapacity : room ≤ pipe.capacity)
    (hfits : frame.length ≤ room)
    (hlimits : ∀ i, frame.length ≤ k.fill i ∧ frame.length ≤ k.send i) :
    Refines room (g.distribute pipe frame.length k)
      { s with
        received := fun conn =>
          s.received conn ++ (List.replicate (s.entries.count conn) frame).flatten } := by
  have hoffered : pipe.items.take frame.length = frame := by rw [hpipe, List.take_length]
  have htakes : ∀ m ∈ g.connections, ∀ i, m.pipe.TakesAll (k.fill i) frame := by
    intro m hm i
    obtain ⟨hempty, hroom⟩ := h.pipes m hm
    exact takesAll_of_nil hempty (hlimits i).1 (Nat.le_trans hfits hroom)
  have hfilled : ∀ m' ∈ fillMembers frame.length k.fill pipe g.connections,
      m'.pipe.items = frame ∧ room ≤ m'.pipe.capacity := by
    intro m' hm'
    obtain ⟨i, m, hi, -, hm'⟩ := mem_fillMembers hm'
    have hm : m ∈ g.connections := List.mem_of_getElem? hi
    obtain ⟨hempty, hroom⟩ := h.pipes m hm
    rw [hm', hoffered, (htakes m hm i).offer_items, hempty, List.nil_append, Fifo.offer_capacity]
    exact ⟨rfl, hroom⟩
  obtain ⟨hsent, hsockets⟩ := sendMembers_complete (fun i => (hlimits i).2) 0
    (fun m' hm' => (hfilled m' hm').1) g.sockets
  constructor
  · -- the last member takes the frame out of the shared pipe
    refine ⟨pipe.pop (drained frame.length k.fill pipe g.connections), rfl, ?_, hcapacity⟩
    have hlast : g.connections.getLast? = some (g.connections.getLast hnil) :=
      List.getLast?_eq_some_getLast hnil
    have hdrained : drained frame.length k.fill pipe g.connections = frame.length := by
      rw [drained, hlast, hoffered]
      exact (htakes _ (List.getLast_mem hnil) _).taken
    rw [hdrained, Fifo.pop_items, hpipe, List.drop_length]
  · intro m' hm'
    obtain ⟨hempty, m, hm, hroom⟩ := hsent m' hm'
    rw [hroom]
    exact ⟨hempty, (hfilled m hm).2⟩
  · show (sendMembers _ _ _ _ _).1.map Member.conn = s.entries
    rw [map_conn_sendMembers, map_conn_fillMembers]
    exact h.entries
  · intro conn
    show (sendMembers _ _ _ _ _).2 conn = _
    rw [hsockets, map_conn_fillMembers, h.entries, h.received]

/-- One `Broadcast`. -/
private theorem Refines.broadcast {room : Nat} {g : BroadcastGroup} {s : Ideal}
    (h : Refines room g s) {data : Bytes} {msgType : WsFrameType} {k : Transfers}
    (hcomplete : Complete room (.broadcast data msgType k)) :
    Refines room (g.broadcast data msgType k).2
      { s with
        received := fun conn =>
          s.received conn ++
            (List.replicate (s.entries.count conn) (wsFrame data msgType)).flatten } := by
  obtain ⟨hfits, ⟨headerLimit, hheader, hheaderLimit⟩, ⟨dataLimit, hdata, hdataLimit⟩, hlimits⟩ :=
    hcomplete
  obtain ⟨pipe, hpipe, hempty, hcapacity⟩ := h.shared
  by_cases hnil : g.connections = []
  -- without members nothing is written
  · have hbroadcast : g.broadcast data msgType k = (0, g) := by
      simp only [BroadcastGroup.broadcast, hpipe, hnil, if_true]
    rw [hbroadcast]
    refine ⟨h.shared, h.pipes, h.entries, ?_⟩
    intro conn
    rw [← h.entries, hnil]
    simpa using h.received conn
  · have hbroadcast : g.broadcast data msgType k =
        (0, g.distribute
          ((pipe.offer headerLimit (makeWebsocketHeader data.length msgType)).offer dataLimit data)
          ((makeWebsocketHeader data.length msgType).length + data.length) k) := by
      simp only [BroadcastGroup.broadcast, hpipe, hnil, if_false, hheader, hdata]
    rw [hbroadcast]
    -- both writes are complete, so that the shared pipe holds the frame
    have hwritten := written_complete hempty (Nat.le_trans hfits hcapacity) hheaderLimit hdataLimit
    have htotal : (makeWebsocketHeader data.length msgType).length + data.length =
        (wsFrame data msgType).length := List.length_append.symm
    rw [htotal]
    exact h.distribute hnil hwritten hcapacity hfits hlimits

/-- One call. -/
theorem Refines.call {room : Nat} {g : BroadcastGroup} {s : Ideal}
    (h : Refines room g s) {call : GroupCall} (hcomplete : Complete room call) :
    Refines room (g.call call).2 (s.call call) := by
  cases call with
  | join connection capacity =>
    obtain ⟨capacity, rfl, hroom⟩ := hcomplete
    cases connection with
    | none => exact h
    | some conn =>
      refine ⟨h.shared, ?_, ?_, h.received⟩
      -- the pipe of the new member is empty
      · intro m hm
        rcases List.mem_append.mp hm with hm | hm
        · exact h.pipes m hm
        · rw [List.mem_singleton.mp hm]
          exact ⟨rfl, hroom⟩
      · show (g.connections ++ [_]).map Member.conn = s.entries ++ [conn]
        rw [List.map_append, h.entries]
        rfl
  | leave conn =>
    -- `Leave` takes the first entry of the connection out
    have hentries : (g.leave conn).2.connections.map Member.conn = s.entries.erase conn :=
      (map_conn_leave g conn).trans (congrArg (List.erase · conn) h.entries)
    obtain ⟨hsub, hsockets, hpipe⟩ := leave_sublist g conn
    show Refines room (g.leave conn).2 { s with entries := s.entries.erase conn }
    refine ⟨?_, fun m hm => h.pipes m (hsub.mem hm), hentries, ?_⟩
    · rw [hpipe]
      exact h.shared
    · rw [hsockets]
      exact h.received
  | broadcast data msgType k => exact h.broadcast hcomplete

/-- **Delivery.** When all transfers are complete, the socket of a connection gets, for every
    `Broadcast` and in their order, the frame once for each entry that the connection has in
    `connections_` at that time, and nothing else. No call leaves anything in a pipe. -/
theorem delivery {room capacity : Nat} (hcapacity : room ≤ capacity) {calls : List GroupCall}
    (hcomplete : ∀ call ∈ calls, Complete room call) :
    let g := (new (some capacity)).after calls
    let s := calls.foldl Ideal.call ⟨[], fun _ => []⟩
    g.connections.map Member.conn = s.entries ∧ (∀ conn, g.sockets conn = s.received conn) ∧
      (∃ pipe, g.pipe = some pipe ∧ pipe.items = []) ∧ ∀ m ∈ g.connections, m.pipe.items = [] := by
  have hinit : Refines room (.new (some capacity)) ⟨[], fun _ => []⟩ :=
    ⟨⟨.empty capacity, rfl, rfl, hcapacity⟩, fun _ hm => absurd hm List.not_mem_nil, rfl,
      fun _ => rfl⟩
  have h : Refines room ((new (some capacity)).after calls)
      (calls.foldl Ideal.call ⟨[], fun _ => []⟩) :=
    List.foldl_rel hinit fun call hcall _ _ h => h.call (hcomplete call hcall)
  obtain ⟨pipe, hpipe, hempty, -⟩ := h.shared
  exact ⟨h.entries, h.received, ⟨pipe, hpipe, hempty⟩, fun m hm => (h.pipes m hm).1⟩

/-- Two members, of which one leaves before the second frame. -/
theorem delivery_two_members :
    let g := (new (some 64)).after
      [.join (some 1) (some 64), .join (some 2) (some 64),
        .broadcast (ascii "hi") .kTypeText (movesUpTo 64), .leave 1,
        .broadcast (ascii "!") .kTypeText (movesUpTo 64)]
    g.sockets 1 = wsFrame (ascii "hi") .kTypeText ∧
      g.sockets 2 = wsFrame (ascii "hi") .kTypeText ++ wsFrame (ascii "!") .kTypeText := by
  have hjoin : ∀ conn, Complete 64 (.join (some conn) (some 64)) :=
    fun conn => ⟨64, rfl, Nat.le_refl 64⟩
  have hcomplete : ∀ call ∈ [.join (some 1) (some 64), .join (some 2) (some 64),
      .broadcast (ascii "hi") .kTypeText (movesUpTo 64), .leave 1,
      .broadcast (ascii "!") .kTypeText (movesUpTo 64)], Complete 64 call := by
    intro call hcall
    simp only [List.mem_cons, List.not_mem_nil, or_false] at hcall
    rcases hcall with rfl | rfl | rfl | rfl | rfl
    · exact hjoin 1
    · exact hjoin 2
    · exact complete_movesUpTo (by decide)
    · trivial
    · exact complete_movesUpTo (by decide)
  obtain ⟨-, hsockets, -⟩ := delivery (Nat.le_refl 64) hcomplete
  exact ⟨hsockets 1, hsockets 2⟩

/-- A connection that has joined twice gets a frame twice. -/
theorem joined_twice :
    ∃ calls : List GroupCall, (∀ call ∈ calls, Complete 64 call) ∧
      calls = [.join (some 1) (some 64), .join (some 1) (some 64),
        .broadcast (ascii "hi") .kTypeText (movesUpTo 64)] ∧
      ((new (some 64)).after calls).connections.map Member.conn = [1, 1] ∧
      ((new (some 64)).after calls).sockets 1 =
        wsFrame (ascii "hi") .kTypeText ++ wsFrame (ascii "hi") .kTypeText ∧
      ((new (some 64)).after calls).sockets 1 ≠ wsFrame (ascii "hi") .kTypeText := by
  refine ⟨_, ?_, rfl, by decide, by decide, by decide⟩
  intro call hcall
  simp only [List.mem_cons, List.not_mem_nil, or_false] at hcall
  rcases hcall with rfl | rfl | rfl
  · exact ⟨64, rfl, Nat.le_refl 64⟩
  · exact ⟨64, rfl, Nat.le_refl 64⟩
  · exact complete_movesUpTo (by decide)

/-! ## Isolation, when all transfers are complete -/

namespace Delivery

/-- The group does what it is for, and each member has got the frames since it joined. -/
structure Delivered (room : Nat) (d : Delivery) : Prop where
  refines : ∃ s, Refines room d.group s
  nodup : (d.group.connections.map Member.conn).Nodup
  received : ∀ m ∈ d.group.connections,
    d.group.sockets m.conn = d.before m.conn ++ d.frames m.conn

variable {room : Nat} {d d' : Delivery} {call : GroupCall}

/-- The call joins no connection that is a member. -/
def JoinsNew (d : Delivery) (call : GroupCall) : Prop :=
  ∀ conn capacity, call = .join (some conn) capacity → ∀ m ∈ d.group.connections, m.conn ≠ conn

namespace Delivered

theorem upToDate (h : Delivered room d) {pipe : Fifo UInt8} (hpipe : d.group.pipe = some pipe) :
    ∀ m ∈ d.group.connections, d.UpToDate pipe m := by
  obtain ⟨s, hrefines⟩ := h.refines
  obtain ⟨pipe', hpipe', hempty, -⟩ := hrefines.shared
  obtain rfl : pipe = pipe' := Option.some.inj (hpipe.symm.trans hpipe')
  intro m hm
  -- nothing is on its way
  unfold UpToDate
  rw [(hrefines.pipes m hm).1, hempty, List.append_nil, List.append_nil]
  exact h.received m hm

theorem nothingSkipped (h : Delivered room d) (hcomplete : Complete room call)
    (hnew : d.JoinsNew call) : d.NothingSkipped call := by
  cases call with
  | join connection capacity =>
    cases connection with
    | none => trivial
    | some conn => exact hnew conn capacity rfl
  | leave conn => trivial
  | broadcast data msgType k =>
    obtain ⟨hfits, ⟨limit, hheader, hlimit⟩, -⟩ := hcomplete
    obtain ⟨s, hrefines⟩ := h.refines
    obtain ⟨pipe, hpipe, hempty, hcapacity⟩ := hrefines.shared
    -- the shared pipe is empty, so it takes the header
    have hle : (makeWebsocketHeader data.length msgType).length ≤
        (wsFrame data msgType).length := by
      rw [wsFrame, List.length_append]
      exact Nat.le_add_right _ _
    exact nothingSkipped_broadcast hpipe hheader (h.upToDate hpipe)
      (takesAll_of_nil hempty hlimit (by omega))

private theorem broadcast (h : Delivered room d) {data : Bytes} {msgType : WsFrameType}
    {k : Transfers} (hcomplete : Complete room (.broadcast data msgType k))
    (hstep : d.step (.broadcast data msgType k) = some d') : Delivered room d' := by
  obtain ⟨s, hrefines⟩ := h.refines
  have hrefines' := hrefines.call hcomplete
  have hconns := map_conn_broadcast d.group data msgType k
  -- both writes succeed, and there is a pipe
  have hret : (d.group.broadcast data msgType k).1 = 0 := by
    obtain ⟨-, ⟨n, hheader, -⟩, ⟨n', hdata, -⟩, -⟩ := hcomplete
    obtain ⟨pipe, hpipe, -⟩ := hrefines.shared
    unfold BroadcastGroup.broadcast
    simp only [hpipe, hheader, hdata]
    split <;> rfl
  rw [step_broadcast, if_pos hret] at hstep
  obtain rfl := Option.some.inj hstep
  refine ⟨⟨_, hrefines'⟩, hconns ▸ h.nodup, ?_⟩
  intro m hm
  have hmem : m.conn ∈ d.group.connections.map Member.conn :=
    hconns ▸ List.mem_map_of_mem hm
  obtain ⟨m', hm', hconn⟩ := List.mem_map.mp hmem
  -- a member is one once, so it gets the frame once
  have hcount : s.entries.count m.conn = 1 := by
    rw [← hrefines.entries, h.nodup.count, if_pos hmem]
  have hreceived := hrefines'.received m.conn
  change (d.group.broadcast data msgType k).2.sockets m.conn = s.received m.conn ++
    (List.replicate (s.entries.count m.conn) (wsFrame data msgType)).flatten at hreceived
  rw [hcount, ← hrefines.received, ← hconn, h.received m' hm'] at hreceived
  show (d.group.broadcast data msgType k).2.sockets m.conn = _
  rw [← hconn, hreceived]
  simp

/-- One call. -/
theorem step (h : Delivered room d) (hcomplete : Complete room call) (hnew : d.JoinsNew call)
    (hstep : d.step call = some d') : Delivered room d' := by
  obtain ⟨s, hrefines⟩ := h.refines
  have hrefines' := hrefines.call hcomplete
  cases call with
  | leave conn =>
    rw [step_leave] at hstep
    obtain rfl := Option.some.inj hstep
    obtain ⟨hsub, hsockets, -⟩ := leave_sublist d.group conn
    refine ⟨⟨_, hrefines'⟩, (hsub.map Member.conn).nodup h.nodup, ?_⟩
    intro m hm
    show (d.group.leave conn).2.sockets m.conn = _
    rw [hsockets]
    exact h.received m (hsub.mem hm)
  | join connection capacity =>
    obtain ⟨c, rfl, -⟩ := hcomplete
    cases connection with
    | none =>
      obtain rfl := Option.some.inj hstep
      exact h
    | some conn =>
      obtain rfl := Option.some.inj hstep
      have hother := hnew conn (some c) rfl
      refine ⟨⟨_, hrefines'⟩, nodup_join h.nodup hother, ?_⟩
      intro m hm
      show d.group.sockets m.conn = Function.update d.before conn (d.group.sockets conn) m.conn ++
        Function.update d.frames conn [] m.conn
      rcases List.mem_append.mp hm with hm | hm
      · rw [Function.update_of_ne (hother m hm), Function.update_of_ne (hother m hm)]
        exact h.received m hm
      · -- the new member has got nothing yet
        rw [List.mem_singleton.mp hm, Function.update_self, Function.update_self, List.append_nil]
  | broadcast data msgType k => exact h.broadcast hcomplete hstep

end Delivered

/-- A run in which all transfers are complete, and no connection joins that is a member. -/
theorem nothingSkipped_of_complete {capacity : Nat} (hcapacity : room ≤ capacity)
    {calls : List GroupCall} (hcomplete : ∀ call ∈ calls, Complete room call)
    (hnew : Runs.Along step JoinsNew ⟨.new (some capacity), fun _ => [], fun _ => []⟩ calls) :
    Runs.Along step NothingSkipped ⟨.new (some capacity), fun _ => [], fun _ => []⟩ calls := by
  have hinit : Delivered room ⟨.new (some capacity), fun _ => [], fun _ => []⟩ :=
    ⟨⟨⟨[], fun _ => []⟩, ⟨.empty capacity, rfl, rfl, hcapacity⟩,
      fun _ hm => absurd hm List.not_mem_nil, rfl, fun _ => rfl⟩, List.nodup_nil,
      fun _ hm => absurd hm List.not_mem_nil⟩
  have hall : Runs.Along step (fun _ call => Complete room call)
      ⟨.new (some capacity), fun _ => [], fun _ => []⟩ calls :=
    Runs.along_of_forall (fun call hcall _ => hcomplete call hcall) _
  exact (hall.and hnew).of_invariant (fun _ _ _ h hcall hstep => h.step hcall.1 hcall.2 hstep)
    (fun _ _ h hcall => h.nothingSkipped hcall.1 hcall.2) hinit

end Delivery

end Httpoll.Native.BroadcastGroup
