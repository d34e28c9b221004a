import Httpoll.ForStd.Runs
import Httpoll.Spec.FrameLengths
import Httpoll.Spec.WebsocketMessages

/-!
# Messages in several frames

Frames that come one by one, each in a read of its own. `Read` agrees with a decoder of the
protocol on every frame whose length has the 7-bit or the 16-bit form. It collects the
payloads of a message in `last_payload_`; a ping or a pong is put there as well, and clears
what was collected.

## Key results

- `readFrame_wire`: `Read` takes a frame as the protocol defines it
- `reassembly`: messages without control frames are delivered once each, whole and in order
- `message_type_iff`: when a message in several frames comes with its own type
- `control_frames_iff`: when pings and pongs leave the message they come into as it is
-/

namespace Httpoll.Native.WebsocketConnection

open Rfc6455 CheckedBuffer

/-! ## Frames as they are sent -/

/-- The bytes of one frame, whose length has the 7-bit or the 16-bit form, and what a
    decoder makes of them. One read can take them. -/
structure WireFrame where
  bytes : Bytes
  header : FrameHeader
  body : Bytes
  decodes : decodeHeader bytes = some (header, body)
  whole : body.length = header.payloadLength
  short : (byteAt bytes 1).toNat % 128 ≠ 127
  fits : bytes.length ≤ SMALL_MEMORY

namespace WireFrame

def fin (f : WireFrame) : Bool := f.header.fin

def opcode (f : WireFrame) : Fin 16 := f.header.opcode

/-- The payload without its mask. -/
def payload (f : WireFrame) : Bytes := applyMask f.header.mask f.body

/-- Opcodes from 8 on are control frames. -/
def IsData (f : WireFrame) : Prop := f.opcode.val < 8

instance : DecidablePred IsData := fun f => inferInstanceAs (Decidable (f.opcode.val < 8))

end WireFrame

/-- A frame whose length has the shortest form. -/
def WireFrame.ofFrame (f : Frame) (hlen : f.payload.length < 2 ^ 16)
    (hfits : f.encode.length ≤ SMALL_MEMORY) : WireFrame where
  bytes := f.encode
  header := f.header
  body := applyMask f.mask f.payload
  decodes := decodeHeader_encodeHeader f.header (Nat.lt_trans hlen (by decide)) _
  whole := length_applyMask f.mask f.payload
  short := by
    have hbit : f.header.maskBit = 0 ∨ f.header.maskBit = 128 := by
      unfold FrameHeader.maskBit
      split <;> simp
    have hpayload : f.header.payloadLength = f.payload.length := rfl
    have hsecond : byteAt f.encode 1 = UInt8.ofNat (f.header.maskBit +
        if f.payload.length < 126 then f.payload.length else 126) := by
      unfold Frame.encode encodeHeader FrameHeader.lengthBytes
      rw [hpayload, if_pos hlen]
      split <;> rfl
    rw [hsecond, toNat_maskBit_add f.header (by split <;> omega)]
    split <;> omega
  fits := hfits

/-- What a decoder has read of the length, as `Read` takes it. -/
private theorem payloadLength_wire (f : WireFrame) :
    ∃ before, payloadLength f.bytes ((byteAt f.bytes 1).toNat % 128) =
        .ok (f.header.payloadLength, before.length) ∧
      f.bytes = before ++ ((f.header.mask.map MaskKey.toList).getD [] ++ f.body) := by
  obtain ⟨-, -, -, -, before, hbuf, hform⟩ := decodeHeader_parts f.decodes
  refine ⟨before, ?_, hbuf⟩
  have hlen := congrArg List.length hbuf
  rw [List.length_append] at hlen
  rcases hform with ⟨h126, hbefore, hn⟩ | ⟨h127, -⟩ | ⟨h126, h127, hbefore, hn⟩
  · rw [h126, payloadLength_middle (by omega), hn, hbefore]
  · exact absurd h127 f.short
  · rw [payloadLength_short h126 h127, hn, hbefore]

/-- **`Read` takes a frame as the protocol defines it.** -/
theorem readFrame_wire (f : WireFrame) :
    readFrame f.bytes = .ok { fin := f.fin, opcode := f.opcode, payload := f.payload } := by
  obtain ⟨hlen, hfin, hopcode, hmask, -⟩ := decodeHeader_parts f.decodes
  obtain ⟨before, hlength, hbytes⟩ := payloadLength_wire f
  have hpayload : readPayload f.bytes f.header.mask.isSome before.length f.payload.length =
      .ok f.payload := by
    -- the mask is its own inverse, so the body is the masked payload
    have hbuf : f.bytes = before ++ ((f.header.mask.map MaskKey.toList).getD [] ++
        (applyMask f.header.mask f.payload ++ [])) := by
      rw [WireFrame.payload, applyMask_applyMask, List.append_nil]
      exact hbytes
    exact readPayload_append before rfl hbuf
  have hsize : f.payload.length = f.header.payloadLength := by
    rw [WireFrame.payload, length_applyMask, f.whole]
  have hopcode' : Fin.ofNat 16 (byteAt f.bytes 0).toNat = f.opcode := Fin.ext hopcode.symm
  rw [hsize, hmask] at hpayload
  rw [readFrame_of_length hlen hlength, hpayload, hopcode', ← hfin]
  rfl

/-! ## One read -/

variable {σ : Type} (fd : Int) (wsKey : Bytes) (hook : Option (WsHook σ)) (onData : WsHandler σ)
  (pingPong : Bool)

theorem WireFrame.bytes_pos (f : WireFrame) : 0 < f.bytes.length := by
  obtain ⟨b0, b1, tail, ext, hbytes, -⟩ := decodeHeader_eq_some f.decodes
  rw [hbytes]
  exact Nat.succ_pos _

/-- `Read` on one frame, whatever its opcode. -/
theorem read_wire (f : WireFrame) (pending : Bytes) (user : σ) :
    WebsocketConnection.read pingPong
        { wsKey, onData := some onData, willCloseHook := hook, lastPayload := pending }
        (upgraded fd wsKey hook onData pending) (.data f.bytes) user =
      .ok (handleFrame pingPong
        { wsKey, onData := some onData, willCloseHook := hook, lastPayload := pending }
        (upgraded fd wsKey hook onData pending) user
        { fin := f.fin, opcode := f.opcode, payload := f.payload }) := by
  simp only [WebsocketConnection.read, Connection.read, f.bytes_pos, if_true,
    show ¬ (1 : Int) < 0 from by decide, if_false, upgraded, List.nil_append, readFrame_wire f,
    bind, Except.bind]

/-- A data frame is added to the message, and ends it when it is final. -/
theorem handleFrame_data {f : WireFrame} (hf : f.IsData) (pending : Bytes) (user : σ) :
    handleFrame pingPong
        { wsKey, onData := some onData, willCloseHook := hook, lastPayload := pending }
        (upgraded fd wsKey hook onData pending) user
        { fin := f.fin, opcode := f.opcode, payload := f.payload } =
      if f.fin then
        { ret := (onData user f.opcode (pending ++ f.payload)).1
          conn := upgraded fd wsKey hook onData []
          user := (onData user f.opcode (pending ++ f.payload)).2
          call := some (f.opcode, pending ++ f.payload) }
      else
        { ret := 1, conn := upgraded fd wsKey hook onData (pending ++ f.payload), user } := by
  -- neither a close frame nor a ping nor a pong
  have hne : ∀ opcode : Fin 16, 8 ≤ opcode.val → f.opcode ≠ opcode := by
    intro opcode hge heq
    have hlt : f.opcode.val < 8 := hf
    omega
  have hclose := hne WsFrameType.kTypeClose.toOpcode (by decide)
  have hping := hne WsFrameType.kTypePing.toOpcode (by decide)
  have hpong := hne WsFrameType.kTypePong.toOpcode (by decide)
  simp only [handleFrame, hclose, hping, hpong, and_false, if_false, upgraded]

/-! ## Messages -/

/-- A connection that is read from, with the calls of `on_data_` that were made so far. -/
structure Reading (σ : Type) where
  conn : Connection σ
  user : σ
  calls : List (Fin 16 × Bytes)

/-- One `Read`, with the bytes that `read(2)` gives. There is no next state when it reaches
    outside of the buffer, or returns -1 and the server closes the connection. -/
def readStep (pingPong : Bool) (r : Reading σ) (bytes : Bytes) : Option (Reading σ) :=
  match r.conn.wsConn with
  | none => none
  | some ws =>
    match ws.read pingPong r.conn (.data bytes) r.user with
    | .error _ => none
    | .ok out =>
      if out.ret = -1 then none
      else some { conn := out.conn, user := out.user, calls := r.calls ++ out.call.toList }

/-- A message in one or more frames, of which the last one is final. -/
structure Message where
  fragments : List WireFrame
  last : WireFrame
  fragments_data : ∀ f ∈ fragments, f.IsData ∧ f.fin = false
  last_data : last.IsData ∧ last.fin = true

namespace Message

def frames (m : Message) : List WireFrame := m.fragments ++ [m.last]

def payload (m : Message) : Bytes := m.frames.flatMap WireFrame.payload

theorem frames_data (m : Message) : ∀ f ∈ m.frames, f.IsData := by
  intro f hf
  rcases List.mem_append.mp hf with hf | hf
  · exact (m.fragments_data f hf).1
  · rw [List.mem_singleton.mp hf]
    exact m.last_data.1

/-- The call of `on_data_` for the message. -/
def call (m : Message) : Fin 16 × Bytes := (m.last.opcode, m.payload)

end Message

/-- One `Read` of a data frame, with a handler that keeps the connection. -/
theorem readStep_data {f : WireFrame} (hf : f.IsData)
    (hkeep : ∀ user opcode data, (onData user opcode data).1 ≠ -1) (pending : Bytes) (user : σ)
    (calls : List (Fin 16 × Bytes)) :
    readStep pingPong ⟨upgraded fd wsKey hook onData pending, user, calls⟩ f.bytes =
      some (if f.fin then
        ⟨upgraded fd wsKey hook onData [], (onData user f.opcode (pending ++ f.payload)).2,
          calls ++ [(f.opcode, pending ++ f.payload)]⟩
      else ⟨upgraded fd wsKey hook onData (pending ++ f.payload), user, calls⟩) := by
  have hws : (upgraded fd wsKey hook onData pending).wsConn =
      some ⟨wsKey, some onData, hook, pending⟩ := rfl
  simp only [readStep, hws, read_wire, handleFrame_data fd wsKey hook onData pingPong hf]
  cases f.fin with
  | true => simp only [if_true, hkeep, if_false, Option.toList_some]
  | false =>
    simp only [Bool.false_eq_true, if_false, show ¬ (1 : Int) = -1 from by decide,
      Option.toList_none, List.append_nil]

/-- Frames that are not final are collected. -/
private theorem foldlM_fragments {fs : List WireFrame}
    (hfs : ∀ f ∈ fs, f.IsData ∧ f.fin = false)
    (hkeep : ∀ user opcode data, (onData user opcode data).1 ≠ -1) (pending : Bytes) (user : σ)
    (calls : List (Fin 16 × Bytes)) :
    (fs.map WireFrame.bytes).foldlM (readStep pingPong)
        ⟨upgraded fd wsKey hook onData pending, user, calls⟩ =
      some ⟨upgraded fd wsKey hook onData (pending ++ fs.flatMap WireFrame.payload), user,
        calls⟩ := by
  induction fs generalizing pending with
  | nil => simp
  | cons f fs ih =>
    obtain ⟨hdata, hfin⟩ := hfs f List.mem_cons_self
    -- the payload of the first fragment joins what is pending
    rw [List.map_cons, Runs.foldlM_cons_eq_some]
    refine ⟨_, readStep_data fd wsKey hook onData pingPong hdata hkeep pending user calls, ?_⟩
    simp only [hfin, Bool.false_eq_true, if_false]
    rw [ih (fun g hg => hfs g (List.mem_cons_of_mem f hg)), List.flatMap_cons, List.append_assoc]

/-- One message, in reads of its own. -/
theorem foldlM_message (m : Message) (hkeep : ∀ user opcode data, (onData user opcode data).1 ≠ -1)
    (user : σ) (calls : List (Fin 16 × Bytes)) :
    (m.frames.map WireFrame.bytes).foldlM (readStep pingPong)
        ⟨upgraded fd wsKey hook onData [], user, calls⟩ =
      some ⟨upgraded fd wsKey hook onData [], (onData user m.last.opcode m.payload).2,
        calls ++ [m.call]⟩ := by
  have hpayload : m.fragments.flatMap WireFrame.payload ++ m.last.payload = m.payload := by
    simp [Message.payload, Message.frames]
  rw [Message.frames, List.map_append, Runs.foldlM_append_of_some
    (foldlM_fragments fd wsKey hook onData pingPong m.fragments_data hkeep [] user calls),
    List.nil_append, List.map_singleton, Runs.foldlM_cons_eq_some]
  refine ⟨_, readStep_data fd wsKey hook onData pingPong m.last_data.1 hkeep _ user calls, ?_⟩
  simp only [m.last_data.2, if_true, hpayload]
  rfl

/-- **Reassembly.** Messages that come frame by frame, without control frames, are handed to
    `on_data_` once each, whole and in order. Nothing is left in `last_payload_` or in
    `buffer_` after any of them. -/
theorem reassembly (hkeep : ∀ user opcode data, (onData user opcode data).1 ≠ -1)
    (ms : List Message) (user : σ) :
    (ms.flatMap fun m => m.frames.map WireFrame.bytes).foldlM (readStep pingPong)
        ⟨upgraded fd wsKey hook onData [], user, []⟩ =
      some ⟨upgraded fd wsKey hook onData [],
        ms.foldl (fun user m => (onData user m.last.opcode m.payload).2) user,
        ms.map Message.call⟩ := by
  -- the induction carries the calls that the messages before have made
  have h : ∀ (calls : List (Fin 16 × Bytes)) (user : σ),
      (ms.flatMap fun m => m.frames.map WireFrame.bytes).foldlM (readStep pingPong)
          ⟨upgraded fd wsKey hook onData [], user, calls⟩ =
        some ⟨upgraded fd wsKey hook onData [],
          ms.foldl (fun user m => (onData user m.last.opcode m.payload).2) user,
          calls ++ ms.map Message.call⟩ := by
    induction ms with
    | nil => simp
    | cons m ms ih =>
      intro calls user
      rw [List.flatMap_cons, Runs.foldlM_append_of_some
        (foldlM_message fd wsKey hook onData pingPong m hkeep user calls), ih]
      simp
  exact h [] user

/-- Two messages, the first one in two frames, of which one has no mask. -/
theorem reassembly_two_messages :
    ∃ f₁ f₂ f₃ : WireFrame, f₁.payload = ascii "he" ∧ f₂.payload = ascii "llo" ∧
      f₃.payload = ascii "bye" ∧
      ([f₁, f₂, f₃].map WireFrame.bytes).foldlM (readStep true)
          (⟨upgraded 4 (ascii "key") none (fun n _ _ => (0, n + 1)) [], 0, []⟩ : Reading Nat) =
        some ⟨upgraded 4 (ascii "key") none (fun n _ _ => (0, n + 1)) [], 2,
          [(0, ascii "hello"), (2, ascii "bye")]⟩ := by
  let f₁ := WireFrame.ofFrame ⟨false, 0, 1, some ⟨1, 2, 3, 4⟩, ascii "he"⟩ (by decide) (by decide)
  let f₂ := WireFrame.ofFrame ⟨true, 0, 0, some ⟨5, 6, 7, 8⟩, ascii "llo"⟩ (by decide) (by decide)
  let f₃ := WireFrame.ofFrame ⟨true, 0, 2, none, ascii "bye"⟩ (by decide) (by decide)
  refine ⟨f₁, f₂, f₃, by decide, by decide, by decide, ?_⟩
  exact reassembly 4 (ascii "key") none (fun n _ _ => (0, n + 1)) true (fun _ _ _ => by simp)
    [⟨[f₁], f₂, by decide, by decide⟩, ⟨[], f₃, by decide, by decide⟩] 0

/-! ## The type of a message -/

/-- A message of type `t`: its first frame has the opcode of `t`, and the others are
    continuation frames. -/
def Message.HasType (m : Message) (t : WsFrameType) : Prop :=
  ∃ first rest, m.frames = first :: rest ∧ first.opcode = t.toOpcode ∧
    ∀ f ∈ rest, f.opcode = WsFrameType.kTypeContinuation.toOpcode

/-- A run that begins with frames that are not final. -/
theorem run_fragments {fs : List WireFrame} (hfs : ∀ f ∈ fs, f.IsData ∧ f.fin = false)
    (reads : List Bytes) (pending : Bytes) (user : σ) :
    run pingPong (fs.map WireFrame.bytes ++ reads) (upgraded fd wsKey hook onData pending) user =
      run pingPong reads
        (upgraded fd wsKey hook onData (pending ++ fs.flatMap WireFrame.payload)) user := by
  induction fs generalizing pending with
  | nil => simp
  | cons f fs ih =>
    obtain ⟨hdata, hfin⟩ := hfs f List.mem_cons_self
    have hrest := ih (fun g hg => hfs g (List.mem_cons_of_mem f hg)) (pending ++ f.payload)
    have hws : (upgraded fd wsKey hook onData pending).wsConn =
        some ⟨wsKey, some onData, hook, pending⟩ := rfl
    have hframe := handleFrame_data fd wsKey hook onData pingPong hdata pending user
    rw [if_neg (by simp [hfin])] at hframe
    rw [List.append_assoc] at hrest
    simp only [List.map_cons, List.cons_append, run, hws, read_wire, hframe, bind, Except.bind,
      show ¬ (1 : Int) = -1 from by decide, if_false, hrest, List.flatMap_cons]
    cases run pingPong reads _ user <;> rfl

/-- The call that a message makes, with `pending` left in `last_payload_` by what came
    before it. -/
theorem run_message (m : Message) (pending : Bytes) (user : σ) :
    run pingPong (m.frames.map WireFrame.bytes) (upgraded fd wsKey hook onData pending) user =
      .ok [(m.last.opcode, pending ++ m.payload)] := by
  have hpayload : pending ++ m.fragments.flatMap WireFrame.payload ++ m.last.payload =
      pending ++ m.payload := by
    simp [Message.payload, Message.frames]
  have hws : ∀ pending', (upgraded fd wsKey hook onData pending').wsConn =
      some ⟨wsKey, some onData, hook, pending'⟩ := fun _ => rfl
  have hframe := handleFrame_data fd wsKey hook onData pingPong m.last_data.1
    (pending ++ m.fragments.flatMap WireFrame.payload) user
  rw [if_pos m.last_data.2, hpayload] at hframe
  rw [Message.frames, List.map_append,
    run_fragments fd wsKey hook onData pingPong m.fragments_data, List.map_singleton]
  simp only [run, hws, read_wire, hframe, bind, Except.bind]
  -- whether the handler keeps the connection or not, no more is read
  split <;> rfl

/-- **The type of a message.** `on_data_` is called with the opcode of the last frame, so it
    gets the type of the message exactly when that is the only one. -/
theorem message_type_iff (m : Message) {t : WsFrameType}
    (ht : t = .kTypeText ∨ t = .kTypeBinary) (hm : m.HasType t) (pending : Bytes) (user : σ) :
    ∃ opcode,
      run pingPong (m.frames.map WireFrame.bytes) (upgraded fd wsKey hook onData pending) user =
        .ok [(opcode, pending ++ m.payload)] ∧ (opcode = t.toOpcode ↔ m.fragments = []) := by
  refine ⟨_, run_message fd wsKey hook onData pingPong m pending user, ?_⟩
  obtain ⟨first, rest, hframes, hfirst, hrest⟩ := hm
  unfold Message.frames at hframes
  cases hfrags : m.fragments with
  | nil =>
    rw [hfrags, List.nil_append, List.cons.injEq] at hframes
    simp [hframes.1, hfirst]
  | cons f fs =>
    rw [hfrags, List.cons_append, List.cons.injEq] at hframes
    have hlast := hrest m.last (by simp [← hframes.2])
    rw [hlast]
    -- a continuation frame is neither text nor binary
    rcases ht with rfl | rfl <;> simp [WsFrameType.toOpcode]

/-- A text message in one frame. -/
theorem message_type_one_frame :
    ∃ m : Message, m.HasType .kTypeText ∧ m.fragments = [] ∧
      run true (m.frames.map WireFrame.bytes)
        (upgraded 4 (ascii "key") none (fun n _ _ => (0, n + 1)) []) 0 =
          .ok [(WsFrameType.kTypeText.toOpcode, m.payload)] := by
  let f := WireFrame.ofFrame ⟨true, 0, 1, some ⟨1, 2, 3, 4⟩, ascii "hi"⟩ (by decide) (by decide)
  let m : Message := ⟨[], f, by decide, by decide⟩
  have hm : m.HasType .kTypeText := ⟨f, [], rfl, by decide, by simp⟩
  obtain ⟨opcode, hrun, htype⟩ := message_type_iff 4 (ascii "key") none
    (fun n _ _ => (0, n + 1)) true m (.inl rfl) hm [] 0
  exact ⟨m, hm, rfl, htype.mpr rfl ▸ hrun⟩

/-- A text message in two frames is handed over as a continuation. -/
theorem message_type_two_frames :
    ∃ f₁ f₂ : WireFrame, ∃ m : Message, m.frames = [f₁, f₂] ∧ m.HasType .kTypeText ∧
      run true ([f₁, f₂].map WireFrame.bytes)
        (upgraded 4 (ascii "key") none (fun n _ _ => (0, n + 1)) []) 0 =
          .ok [(WsFrameType.kTypeContinuation.toOpcode, ascii "hi")] := by
  let f₁ := WireFrame.ofFrame ⟨false, 0, 1, some ⟨1, 2, 3, 4⟩, ascii "h"⟩ (by decide) (by decide)
  let f₂ := WireFrame.ofFrame ⟨true, 0, 0, some ⟨5, 6, 7, 8⟩, ascii "i"⟩ (by decide) (by decide)
  exact ⟨f₁, f₂, ⟨[f₁], f₂, by decide, by decide⟩, rfl, ⟨f₁, [f₂], rfl, by decide, by decide⟩,
    by decide⟩

/-! ## Pings and pongs -/

/-- A ping or a pong. -/
def WireFrame.IsPingPong (f : WireFrame) : Prop :=
  f.opcode = WsFrameType.kTypePing.toOpcode ∨ f.opcode = WsFrameType.kTypePong.toOpcode

instance : DecidablePred WireFrame.IsPingPong := fun f =>
  inferInstanceAs (Decidable
    (f.opcode = WsFrameType.kTypePing.toOpcode ∨ f.opcode = WsFrameType.kTypePong.toOpcode))

/-- The messages that `Read` makes of frames, with `pending` in `last_payload_`. -/
def received : (pending : Bytes) → List WireFrame → List (Fin 16 × Bytes)
  | _, [] => []
  | pending, f :: fs =>
    if f.IsData then
      if f.fin then (f.opcode, pending ++ f.payload) :: received [] fs
      else received (pending ++ f.payload) fs
    else received [] fs

/-- A ping or a pong clears what was collected of a message. -/
theorem handleFrame_pingPong {f : WireFrame} (hf : f.IsPingPong) (pending : Bytes) (user : σ) :
    ∃ writes, handleFrame true
        { wsKey, onData := some onData, willCloseHook := hook, lastPayload := pending }
        (upgraded fd wsKey hook onData pending) user
        { fin := f.fin, opcode := f.opcode, payload := f.payload } =
      { ret := 0, conn := upgraded fd wsKey hook onData [], user, writes } := by
  rcases hf with h | h
  · rw [h]
    exact ⟨_, rfl⟩
  · rw [h]
    exact ⟨_, rfl⟩

/-- **A run with pings and pongs**, whatever the handler. -/
theorem run_wires {fs : List WireFrame} (hfs : ∀ f ∈ fs, f.IsData ∨ f.IsPingPong)
    (pending : Bytes) (user : σ) :
    run true (fs.map WireFrame.bytes) (upgraded fd wsKey hook onData pending) user =
      .ok (callsOf onData user (received pending fs)) := by
  induction fs generalizing pending user with
  | nil => rfl
  | cons f fs ih =>
    have hrest := ih fun g hg => hfs g (List.mem_cons_of_mem f hg)
    have hws : (upgraded fd wsKey hook onData pending).wsConn =
        some ⟨wsKey, some onData, hook, pending⟩ := rfl
    simp only [List.map_cons, run, hws, read_wire, bind, Except.bind, received]
    -- a data frame goes on with the message, any other frame gives it up
    by_cases hdata : f.IsData
    · rw [handleFrame_data fd wsKey hook onData true hdata, if_pos hdata]
      cases hfin : f.fin with
      | false =>
        simp only [Bool.false_eq_true, if_false, show ¬ (1 : Int) = -1 from by decide, hrest]
        rfl
      | true =>
        simp only [if_true, callsOf]
        split
        · rfl
        · simp only [hrest]
          rfl
    · obtain ⟨writes, hping⟩ := handleFrame_pingPong fd wsKey hook onData
        ((hfs f List.mem_cons_self).resolve_left hdata) pending user
      rw [hping, if_neg hdata]
      simp only [show ¬ (0 : Int) = -1 from by decide, if_false, hrest]
      rfl

/-! ## When they do no harm -/

/-- No ping or pong between the frames comes after a frame of the message with a payload and
    before another frame of the message. -/
def Harmless (fs : List WireFrame) : Prop :=
  ∀ pre f post, fs = pre ++ f :: post → ¬ f.IsData →
    (∀ g ∈ pre, g.IsData → g.payload = []) ∨ ∀ g ∈ post, ¬ g.IsData

/-- The same for the rest of a message, of which `pending` was collected before. -/
private def HarmlessAfter (pending : Bytes) (fs : List WireFrame) : Prop :=
  ∀ pre f post, fs = pre ++ f :: post → ¬ f.IsData →
    (pending = [] ∧ ∀ g ∈ pre, g.IsData → g.payload = []) ∨ ∀ g ∈ post, ¬ g.IsData

private theorem harmlessAfter_nil (fs : List WireFrame) : HarmlessAfter [] fs ↔ Harmless fs := by
  simp only [HarmlessAfter, Harmless, true_and]

/-- A frame of the message in front. -/
private theorem harmlessAfter_data {f : WireFrame} (hf : f.IsData) (pending : Bytes)
    (fs : List WireFrame) :
    HarmlessAfter pending (f :: fs) ↔ HarmlessAfter (pending ++ f.payload) fs := by
  constructor
  · intro h pre g post hfs hg
    refine (h (f :: pre) g post (by rw [hfs]; rfl) hg).imp_left ?_
    rintro ⟨rfl, hpre⟩
    refine ⟨hpre f List.mem_cons_self hf, ?_⟩
    intro g hg
    exact hpre g (List.mem_cons_of_mem f hg)
  · -- a control frame further on is one of `fs`
    intro h pre g post hfs hg
    cases pre with
    | nil =>
      obtain ⟨rfl, -⟩ := List.cons.inj hfs
      exact absurd hf hg
    | cons f' pre =>
      obtain ⟨rfl, hrest⟩ := List.cons.inj hfs
      refine (h pre g post hrest hg).imp_left ?_
      rintro ⟨hnil, hpre⟩
      obtain ⟨rfl, hpayload⟩ := List.append_eq_nil_iff.mp hnil
      refine ⟨rfl, ?_⟩
      intro g hg hdata
      rcases List.mem_cons.mp hg with rfl | hg
      · exact hpayload
      · exact hpre g hg hdata

/-- A ping or a pong in front, with frames of the message after it. -/
private theorem harmlessAfter_control {f : WireFrame} (hf : ¬ f.IsData) (pending : Bytes)
    {fs : List WireFrame} (hdata : ∃ g ∈ fs, g.IsData) :
    HarmlessAfter pending (f :: fs) ↔ pending = [] ∧ HarmlessAfter [] fs := by
  obtain ⟨d, hd, hdata⟩ := hdata
  constructor
  · intro h
    -- the frame in front does no harm only if nothing is pending
    have hpending : pending = [] := by
      rcases h [] f fs rfl hf with h | h
      · exact h.1
      · exact absurd hdata (h d hd)
    refine ⟨hpending, ?_⟩
    intro pre g post hfs hg
    refine (h (f :: pre) g post (by rw [hfs]; rfl) hg).imp_left ?_
    rintro ⟨-, hpre⟩
    refine ⟨rfl, ?_⟩
    intro g hg
    exact hpre g (List.mem_cons_of_mem f hg)
  · rintro ⟨rfl, h⟩ pre g post hfs hg
    cases pre with
    | nil => exact .inl ⟨rfl, fun _ h => absurd h List.not_mem_nil⟩
    | cons f' pre =>
      obtain ⟨rfl, hrest⟩ := List.cons.inj hfs
      refine (h pre g post hrest hg).imp_left ?_
      rintro ⟨-, hpre⟩
      refine ⟨rfl, ?_⟩
      intro g hg hdata
      rcases List.mem_cons.mp hg with rfl | hg
      · exact absurd hdata hf
      · exact hpre g hg hdata

/-- The frames of the message among `fs`. -/
def dataFrames (fs : List WireFrame) : List WireFrame := fs.filter fun f => f.IsData

private theorem dataFrames_cons_data {f : WireFrame} (hf : f.IsData) (fs : List WireFrame) :
    dataFrames (f :: fs) = f :: dataFrames fs :=
  List.filter_cons_of_pos (decide_eq_true hf)

private theorem dataFrames_cons_control {f : WireFrame} (hf : ¬ f.IsData) (fs : List WireFrame) :
    dataFrames (f :: fs) = dataFrames fs :=
  List.filter_cons_of_neg (by simpa using hf)

theorem received_of_no_data {fs : List WireFrame} (hfs : dataFrames fs = []) (pending : Bytes) :
    received pending fs = [] := by
  induction fs generalizing pending with
  | nil => rfl
  | cons f fs ih =>
    have hf : ¬ f.IsData := by
      intro hf
      rw [dataFrames_cons_data hf] at hfs
      cases hfs
    rw [dataFrames_cons_control hf] at hfs
    rw [received, if_neg hf]
    exact ih hfs []

/-- The rest of a message is received as one message, and as no longer one than was sent. -/
private theorem received_singleton {fs fragments : List WireFrame} {last : WireFrame}
    (hfs : dataFrames fs = fragments ++ [last]) (hfragments : ∀ f ∈ fragments, f.fin = false)
    (hlast : last.fin = true) (pending : Bytes) :
    ∃ payload, received pending fs = [(last.opcode, payload)] ∧
      payload.length ≤ pending.length +
        ((fragments ++ [last]).flatMap WireFrame.payload).length := by
  induction fs generalizing fragments pending with
  | nil => simp [dataFrames] at hfs
  | cons f fs ih =>
    by_cases hf : f.IsData
    · rw [dataFrames_cons_data hf] at hfs
      rw [received, if_pos hf]
      -- it is the last frame of the message or one of the fragments
      cases fragments with
      | nil =>
        obtain ⟨rfl, hrest⟩ := List.cons.inj hfs
        rw [if_pos hlast, received_of_no_data hrest]
        exact ⟨pending ++ f.payload, rfl, by simp⟩
      | cons g fragments =>
        obtain ⟨rfl, hrest⟩ := List.cons.inj hfs
        obtain ⟨payload, hreceived, hle⟩ := ih hrest
          (fun g hg => hfragments g (List.mem_cons_of_mem f hg)) (pending ++ f.payload)
        refine ⟨payload, ?_, ?_⟩
        · rw [hfragments f List.mem_cons_self, if_neg Bool.false_ne_true, hreceived]
        · rw [List.cons_append, List.flatMap_cons, List.length_append]
          rw [List.length_append] at hle
          omega
    · rw [dataFrames_cons_control hf] at hfs
      -- a ping or a pong drops what was pending
      obtain ⟨payload, hreceived, hle⟩ := ih hfs hfragments []
      refine ⟨payload, by rw [received, if_neg hf, hreceived], ?_⟩
      rw [List.length_nil] at hle
      omega

/-- The rest of a message is received as it was sent if and only if no ping or pong does harm. -/
private theorem received_eq_iff {fs fragments : List WireFrame} {last : WireFrame}
    (hfs : dataFrames fs = fragments ++ [last]) (hfragments : ∀ f ∈ fragments, f.fin = false)
    (hlast : last.fin = true) (pending : Bytes) :
    received pending fs =
        [(last.opcode, pending ++ (fragments ++ [last]).flatMap WireFrame.payload)] ↔
      HarmlessAfter pending fs := by
  induction fs generalizing fragments pending with
  | nil => simp [dataFrames] at hfs
  | cons f fs ih =>
    by_cases hf : f.IsData
    · rw [dataFrames_cons_data hf] at hfs
      rw [received, if_pos hf, harmlessAfter_data hf]
      cases fragments with
      | nil =>
        -- the last frame: what follows it is not of the message
        obtain ⟨rfl, hrest⟩ := List.cons.inj hfs
        rw [if_pos hlast, received_of_no_data hrest]
        refine iff_of_true (by simp) ?_
        intro pre g post hpost _
        right
        intro d hd hdata
        have hmem : d ∈ dataFrames fs := by
          refine List.mem_filter.mpr ⟨?_, decide_eq_true hdata⟩
          rw [hpost]
          exact List.mem_append_right pre (List.mem_cons_of_mem g hd)
        rw [hrest] at hmem
        exact absurd hmem List.not_mem_nil
      | cons g fragments =>
        obtain ⟨rfl, hrest⟩ := List.cons.inj hfs
        have hfin := hfragments f List.mem_cons_self
        -- a fragment joins what is pending, on both sides
        have ih := ih hrest (fun g hg => hfragments g (List.mem_cons_of_mem f hg))
          (pending ++ f.payload)
        rw [hfin, if_neg Bool.false_ne_true, ← ih, List.cons_append, List.flatMap_cons,
          List.append_assoc]
    · rw [dataFrames_cons_control hf] at hfs
      -- the last frame of the message is still to come
      have hmem : last ∈ dataFrames fs := by
        rw [hfs]
        exact List.mem_append_right fragments List.mem_cons_self
      obtain ⟨hlast_mem, hlast_data⟩ := List.mem_filter.mp hmem
      rw [received, if_neg hf, harmlessAfter_control hf pending
        ⟨last, hlast_mem, of_decide_eq_true hlast_data⟩, ← ih hfs hfragments []]
      constructor
      · intro h
        -- nothing was added to what came after the ping or pong, so nothing was pending
        obtain ⟨payload, hreceived, hle⟩ := received_singleton hfs hfragments hlast []
        rw [hreceived, List.singleton_inj, Prod.mk.injEq] at h
        rw [h.2, List.length_append, List.length_nil] at hle
        have hpending : pending = [] := List.length_eq_zero_iff.mp (by omega)
        exact ⟨hpending, by rw [hreceived, h.2, hpending]⟩
      · rintro ⟨rfl, h⟩
        exact h

/-- One message with pings and pongs in between is delivered as it is without them if and only
    if none of them does harm. -/
theorem control_frames_iff (m : Message) (fs : List WireFrame) (hmessage : dataFrames fs = m.frames)
    (hcontrol : ∀ f ∈ fs, f.IsData ∨ f.IsPingPong) (user : σ) :
    run true (m.frames.map WireFrame.bytes) (upgraded fd wsKey hook onData []) user =
        .ok [m.call] ∧
      (run true (fs.map WireFrame.bytes) (upgraded fd wsKey hook onData []) user =
        run true (m.frames.map WireFrame.bytes) (upgraded fd wsKey hook onData []) user ↔
      Harmless fs) := by
  -- the handler does not matter, as there is one call of it
  have hcalls : ∀ call : Fin 16 × Bytes, callsOf onData user [call] = [call] := by
    intro call
    simp [callsOf]
  have hfragments : ∀ f ∈ m.fragments, f.fin = false := fun f hf => (m.fragments_data f hf).2
  have hwithout : run true (m.frames.map WireFrame.bytes) (upgraded fd wsKey hook onData []) user =
      .ok [m.call] := by
    have hall : dataFrames m.frames = m.frames :=
      List.filter_eq_self.mpr fun f hf => decide_eq_true (m.frames_data f hf)
    -- without control frames there is none that does harm
    have hnone : HarmlessAfter [] m.frames := by
      intro pre f post hsplit hf
      refine absurd (m.frames_data f ?_) hf
      rw [hsplit]
      exact List.mem_append_right pre List.mem_cons_self
    rw [run_wires fd wsKey hook onData fun f hf => .inl (m.frames_data f hf),
      (received_eq_iff hall hfragments m.last_data.2 []).mpr hnone]
    exact congrArg _ (hcalls m.call)
  refine ⟨hwithout, ?_⟩
  obtain ⟨payload, hreceived, -⟩ := received_singleton hmessage hfragments m.last_data.2 []
  have hiff := received_eq_iff hmessage hfragments m.last_data.2 []
  rw [hreceived] at hiff
  rw [hwithout, run_wires fd wsKey hook onData hcontrol, hreceived, hcalls, Except.ok.injEq,
    ← harmlessAfter_nil, ← hiff]
  rfl

/-- A pong before the first of two frames, and a ping after the last one. -/
theorem control_frames_around :
    ∃ h i ping pong : WireFrame, h.payload = ascii "h" ∧ i.payload = ascii "i" ∧
      ping.IsPingPong ∧ pong.IsPingPong ∧
      run true ([pong, h, i, ping].map WireFrame.bytes)
          (upgraded 4 (ascii "key") none (fun n _ _ => (0, n + 1)) [] : Connection Nat) 0 =
        run true ([h, i].map WireFrame.bytes)
          (upgraded 4 (ascii "key") none (fun n _ _ => (0, n + 1)) []) 0 := by
  let h := WireFrame.ofFrame ⟨false, 0, 1, some ⟨1, 2, 3, 4⟩, ascii "h"⟩ (by decide) (by decide)
  let i := WireFrame.ofFrame ⟨true, 0, 0, some ⟨5, 6, 7, 8⟩, ascii "i"⟩ (by decide) (by decide)
  let ping := WireFrame.ofFrame ⟨true, 0, 9, some ⟨9, 9, 9, 9⟩, ascii "?"⟩ (by decide) (by decide)
  let pong := WireFrame.ofFrame ⟨true, 0, 10, none, []⟩ (by decide) (by decide)
  have hfragments : ∀ f ∈ [h], f.IsData ∧ f.fin = false := by decide
  have hlast : i.IsData ∧ i.fin = true := by decide
  have hcontrol : ∀ f ∈ [pong, h, i, ping], f.IsData ∨ f.IsPingPong := by decide
  have hiff := control_frames_iff 4 (ascii "key") none (fun n _ _ => (0, n + 1))
    ⟨[h], i, hfragments, hlast⟩ [pong, h, i, ping] rfl hcontrol 0
  refine ⟨h, i, ping, pong, by decide, by decide, by decide, by decide, hiff.2.mpr ?_⟩
  have hpong : ¬ pong.IsData := by decide
  rw [← harmlessAfter_nil, harmlessAfter_control hpong [] ⟨i, by simp, hlast.1⟩,
    harmlessAfter_data (hfragments h List.mem_cons_self).1, harmlessAfter_data hlast.1]
  refine ⟨rfl, ?_⟩
  -- only the ping is left
  intro pre f post hsplit _
  right
  cases pre with
  | nil =>
    obtain ⟨-, rfl⟩ := List.cons.inj hsplit
    exact fun _ hg => absurd hg List.not_mem_nil
  | cons g pre =>
    obtain ⟨-, hnil⟩ := List.cons.inj hsplit
    exact absurd hnil (by simp)

/-- A ping between the two frames of "hi": the first of them is lost. -/
theorem ping_clears_fragment :
    ∃ h i ping : WireFrame, h.payload = ascii "h" ∧ i.payload = ascii "i" ∧ ping.IsPingPong ∧
      dataFrames [h, ping, i] = [h, i] ∧
      run true ([h, i].map WireFrame.bytes)
          (upgraded 4 (ascii "key") none (fun n _ _ => (0, n + 1)) [] : Connection Nat) 0 =
        .ok [(0, ascii "hi")] ∧
      run true ([h, ping, i].map WireFrame.bytes)
          (upgraded 4 (ascii "key") none (fun n _ _ => (0, n + 1)) [] : Connection Nat) 0 =
        .ok [(0, ascii "i")] :=
  ⟨WireFrame.ofFrame ⟨false, 0, 1, some ⟨1, 2, 3, 4⟩, ascii "h"⟩ (by decide) (by decide),
    WireFrame.ofFrame ⟨true, 0, 0, some ⟨5, 6, 7, 8⟩, ascii "i"⟩ (by decide) (by decide),
    WireFrame.ofFrame ⟨true, 0, 9, some ⟨9, 9, 9, 9⟩, ascii "?"⟩ (by decide) (by decide),
    by decide, by decide, .inl (by decide), rfl, by decide, by decide⟩

end Httpoll.Native.WebsocketConnection
