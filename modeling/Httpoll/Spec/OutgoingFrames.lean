import Httpoll.ForStd.Runs
import Httpoll.Spec.FrameHeaderRoundTrip
import Httpoll.Spec.WebsocketMessages

/-!
# Frames that are sent

`WebsocketConnection::Write` hands a frame to the socket in two `write(2)` calls, the header
and the payload, and looks at neither result. What a call is cut short by is never sent.

## Key results

- `accepted_prefix_frames`: the peer gets whole frames, in order, as long as no bytes are
  accepted after a call was cut short
- `ping_answered`: a ping is answered by one frame, the pong with its payload
-/

namespace Httpoll.Native.WebsocketConnection

variable {σ : Type}

/-- A call of `Write`, with the answers of the kernel to its two `write(2)` calls. -/
structure WriteCall where
  type : WsFrameType
  data : Bytes
  headerAnswer : WriteAnswer
  payloadAnswer : WriteAnswer
  deriving Repr, DecidableEq

namespace WriteCall

def header (call : WriteCall) : Bytes := makeWebsocketHeader call.data.length call.type

/-- The complete frame. -/
def frame (call : WriteCall) : Bytes := wsFrame call.data call.type

end WriteCall

/-- What `Write` was called with so far, as complete frames, and what the socket accepted. -/
structure Outgoing where
  frames : Bytes
  accepted : Bytes
  deriving Repr, DecidableEq

/-- One call of `Write`. -/
def writeStep (c : Connection σ) (s : Outgoing) (call : WriteCall) : Option Outgoing :=
  some
    { frames := s.frames ++ call.frame
      accepted := s.accepted ++
        (writeAnswered c call.type call.data call.headerAnswer call.payloadAnswer).2 }

/-- The socket accepts bytes only when it has accepted all that it was given before. -/
structure NothingSkipped (s : Outgoing) (call : WriteCall) : Prop where
  header : call.headerAnswer.accepted call.header ≠ [] → s.accepted.length = s.frames.length
  payload : call.payloadAnswer.accepted call.data ≠ [] →
    s.accepted.length = s.frames.length ∧
      (call.headerAnswer.accepted call.header).length = call.header.length

/-- What the socket accepts of one call, when the connection is open. -/
private theorem writeAnswered_accepted {c : Connection σ} (hfd : c.fd ≠ -1) (call : WriteCall) :
    (writeAnswered c call.type call.data call.headerAnswer call.payloadAnswer).2 =
      call.headerAnswer.accepted call.header ++ call.payloadAnswer.accepted call.data := by
  have hwrite : ∀ (data : Bytes) (a : WriteAnswer), (c.write data a).2 = a.accepted data := by
    intro data a
    unfold Connection.write
    rw [if_neg hfd]
    -- `Connection::Write` returns something else for each, but `Write` does not look at it
    cases a with
    | accepts k => rfl
    | fail e => rfl
  simp only [writeAnswered, hwrite, WriteCall.header]

/-- One call of `Write`. -/
private theorem writeStep_isPrefix {c : Connection σ} (hfd : c.fd ≠ -1) {s s' : Outgoing}
    {call : WriteCall} (hpre : s.accepted <+: s.frames) (hskip : NothingSkipped s call)
    (h : writeStep c s call = some s') : s'.accepted <+: s'.frames := by
  obtain rfl := Option.some.inj h
  show s.accepted ++ _ <+: s.frames ++ (call.header ++ call.data)
  rw [writeAnswered_accepted hfd]
  have hheader := call.headerAnswer.accepted_isPrefix call.header
  have hpayload := call.payloadAnswer.accepted_isPrefix call.data
  by_cases hfirst : call.headerAnswer.accepted call.header = []
  · -- then nothing of the payload is accepted either, as the header is not empty
    have hsecond : call.payloadAnswer.accepted call.data = [] := by
      by_contra hne
      have hlen := (hskip.payload hne).2
      rw [hfirst] at hlen
      exact makeWebsocketHeader_ne_nil _ _ (List.length_eq_zero_iff.mp hlen.symm)
    rw [hfirst, hsecond, List.append_nil, List.append_nil]
    exact hpre.trans (List.prefix_append _ _)
  · -- part of the header is accepted, so nothing is missing before it
    have hall : s.accepted = s.frames := hpre.eq_of_length (hskip.header hfirst)
    rw [hall]
    refine (List.prefix_append_right_inj s.frames).mpr ?_
    by_cases hsecond : call.payloadAnswer.accepted call.data = []
    · rw [hsecond, List.append_nil]
      exact hheader.trans (List.prefix_append _ _)
    · -- part of the payload is accepted, so the header is whole
      rw [hheader.eq_of_length (hskip.payload hsecond).2]
      exact (List.prefix_append_right_inj call.header).mpr hpayload

private theorem foldlM_frames {c : Connection σ} {calls : List WriteCall} {s s' : Outgoing}
    (h : calls.foldlM (writeStep c) s = some s') :
    s'.frames = s.frames ++ calls.flatMap WriteCall.frame := by
  induction calls generalizing s with
  | nil =>
    obtain rfl := Option.some.inj h
    simp
  | cons call calls ih =>
    obtain ⟨t, ht, hrest⟩ := Runs.foldlM_cons_eq_some.mp h
    obtain rfl := Option.some.inj ht
    rw [ih hrest, List.flatMap_cons, ← List.append_assoc]

/-- **Outgoing frames.** What an open socket has accepted is a prefix of the complete frames,
    in every run in which it accepts no bytes after a call that was cut short. -/
theorem accepted_prefix_frames (c : Connection σ) (hfd : c.fd ≠ -1) (calls : List WriteCall)
    (s : Outgoing) (hskip : Runs.Along (writeStep c) NothingSkipped ⟨[], []⟩ calls)
    (h : calls.foldlM (writeStep c) ⟨[], []⟩ = some s) :
    s.accepted <+: calls.flatMap WriteCall.frame := by
  have hframes : s.frames = calls.flatMap WriteCall.frame := foldlM_frames h
  rw [← hframes]
  refine Runs.invariant (I := fun s => s.accepted <+: s.frames) ?_ List.nil_prefix hskip h
  intro s call s' hpre hskip hstep
  exact writeStep_isPrefix hfd hpre hskip hstep

/-- Two frames, of which the second one is cut short, and a third one that gets `EAGAIN`. -/
theorem accepted_prefix_frames_cut :
    let c : Connection Unit := { fd := 4 }
    let calls : List WriteCall :=
      [⟨.kTypeText, ascii "hi", .accepts 9, .accepts 2⟩,
        ⟨.kTypeText, ascii "you", .accepts 2, .accepts 1⟩,
        ⟨.kTypeText, ascii "!", .fail .EAGAIN, .fail .EINTR⟩]
    ∃ s, calls.foldlM (writeStep c) ⟨[], []⟩ = some s ∧
      s.accepted = [0x81, 2, 0x68, 0x69] ++ [0x81, 3, 0x79] ∧
      s.accepted <+: calls.flatMap WriteCall.frame := by
  intro c calls
  have hskip : Runs.Along (writeStep c) NothingSkipped ⟨[], []⟩ calls := by
    refine ⟨⟨by decide, by decide⟩, ?_⟩
    rintro s₁ ⟨⟩
    refine ⟨⟨by decide, by decide⟩, ?_⟩
    rintro s₂ ⟨⟩
    refine ⟨⟨by decide, by decide⟩, ?_⟩
    rintro s₃ ⟨⟩
    trivial
  exact ⟨_, rfl, by decide, accepted_prefix_frames c (by decide) calls _ hskip rfl⟩

/-- A frame whose payload is cut short, and the next frame after it. -/
theorem next_frame_after_cut :
    let c : Connection Unit := { fd := 4 }
    let calls : List WriteCall :=
      [⟨.kTypeText, ascii "hello", .accepts 2, .accepts 3⟩,
        ⟨.kTypeText, ascii "!", .accepts 2, .accepts 1⟩]
    ∃ s, calls.foldlM (writeStep c) ⟨[], []⟩ = some s ∧
      s.accepted = [0x81, 5] ++ ascii "hel" ++ [0x81, 1] ++ ascii "!" ∧
      ¬ s.accepted <+: calls.flatMap WriteCall.frame :=
  ⟨_, rfl, by decide, by decide⟩

/-! ## Pongs -/

open Rfc6455

/-- What a socket accepts of the buffers that it is given, on its answers. -/
def acceptedOf (writes : List Bytes) (answers : List WriteAnswer) : Bytes :=
  (List.zipWith (fun data (a : WriteAnswer) => a.accepted data) writes answers).flatten

/-- The socket accepts all bytes that it is given. -/
def AcceptsAll (writes : List Bytes) (answers : List WriteAnswer) : Prop :=
  List.Forall₂ (fun data (a : WriteAnswer) => a.accepted data = data) writes answers

theorem acceptedOf_eq {writes : List Bytes} {answers : List WriteAnswer}
    (h : AcceptsAll writes answers) : acceptedOf writes answers = writes.flatten := by
  induction h with
  | nil => rfl
  | cons hdata _ ih =>
    rw [acceptedOf] at ih ⊢
    rw [List.zipWith_cons_cons, List.flatten_cons, List.flatten_cons, hdata, ih]

/-- `Write` makes one frame out of its two buffers. -/
theorem flatten_write {c : Connection σ} (hfd : c.fd ≠ -1) (type : WsFrameType) (data : Bytes) :
    (write c type data).flatten = wsFrame data type := by
  rw [write, if_neg hfd, List.flatten_cons, List.flatten_cons, List.flatten_nil, List.append_nil]
  rfl

theorem handleFrame_ping (ws : WebsocketConnection σ) (c : Connection σ) (user : σ)
    {frame : RawFrame} (hping : frame.opcode = WsFrameType.kTypePing.toOpcode) :
    handleFrame true ws c user frame =
      { ret := 0, conn := { c with wsConn := some { ws with lastPayload := [] } }, user
        writes := write c .kTypePong frame.payload } := by
  have hclose : ¬ WsFrameType.kTypePing.toOpcode = WsFrameType.kTypeClose.toOpcode := by decide
  simp only [handleFrame, hping, hclose, if_false, and_self, if_true]

/-- **A ping is answered by its pong.** A ping that comes alone in one read, masked or not, is
    not handed to `on_data_`; what a socket gets that accepts all bytes is one final frame
    without a mask, which carries the payload of the ping. -/
theorem ping_answered (ws : WebsocketConnection σ) {c : Connection σ} (hfd : c.fd ≠ -1)
    (hbuffer : c.buffer = []) {ping : Frame} (hping : ping.opcode = WsFrameType.kTypePing.toOpcode)
    (hfits : ping.encode.length ≤ SMALL_MEMORY) (user : σ) :
    ∃ out, WebsocketConnection.read true ws c (.data ping.encode) user = .ok out ∧
      out.ret = 0 ∧ out.call = none ∧
      ∀ answers, AcceptsAll out.writes answers →
        decodeFrame (acceptedOf out.writes answers) = some
          ({ fin := true, rsv := 0, opcode := WsFrameType.kTypePong.toOpcode, mask := none,
             payload := ping.payload }, []) := by
  have hlen : ping.payload.length < 0xffff := by
    have hle := ping.length_payload_le
    unfold SMALL_MEMORY at hfits
    omega
  have hpos : ping.encode.length > 0 := ping.encode_pos
  -- the decoder of `Read` gets the payload
  have hread := readFrame_encode (f := ping) (Nat.lt_trans hlen (by decide)) []
  rw [List.append_nil] at hread
  have hout : WebsocketConnection.read true ws c (.data ping.encode) user =
      .ok (handleFrame true ws { c with buffer := [] } user
        { fin := ping.fin, opcode := ping.opcode, payload := ping.payload }) := by
    simp only [WebsocketConnection.read, Connection.read, hpos, if_true,
      show ¬ (1 : Int) < 0 from by decide, if_false, hbuffer, List.nil_append, hread, bind,
      Except.bind]
  refine ⟨_, hout, ?_⟩
  rw [handleFrame_ping ws _ user hping]
  refine ⟨rfl, rfl, ?_⟩
  intro answers hall
  -- and what `Write` makes of it is the pong
  rw [acceptedOf_eq hall]
  show decodeFrame (write { c with buffer := [] } .kTypePong ping.payload).flatten = _
  rw [flatten_write (c := { c with buffer := [] }) hfd, wsFrame_eq_encode hlen]
  have hdecode := decodeFrame_encode (messageFrame ping.payload .kTypePong)
    (Nat.lt_trans hlen (by decide)) []
  rw [List.append_nil] at hdecode
  exact hdecode

/-- A masked ping of 126 bytes, whose length has the longer form. -/
theorem ping_answered_middle :
    let ping : Frame := ⟨true, 0, 9, some ⟨1, 2, 3, 4⟩, List.replicate 126 0x78⟩
    let ws : WebsocketConnection Unit :=
      { wsKey := ascii "key", onData := none, willCloseHook := none }
    ∃ out, WebsocketConnection.read true ws { fd := 4, wsConn := some ws } (.data ping.encode) () =
        .ok out ∧
      out.ret = 0 ∧ out.call = none ∧
      ∀ answers, AcceptsAll out.writes answers →
        decodeFrame (acceptedOf out.writes answers) = some
          (⟨true, 0, 10, none, List.replicate 126 0x78⟩, []) :=
  ping_answered _ (by decide) rfl rfl (by decide +kernel) ()

end Httpoll.Native.WebsocketConnection
