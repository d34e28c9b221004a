import Httpoll.Native.PollWrites
import Httpoll.Spec.AcceptKey
import Httpoll.Spec.Conversation
import Httpoll.Spec.FrameHeaderRoundTrip
import Httpoll.Spec.InputBuffer
import Httpoll.Spec.ResponseStream

/-!
# What the events of a connection write

The bytes that `Poll` writes to a connection when it serves events, as a client reads them: with
the decoder of RFC 7230 up to the response 101, and with that of RFC 6455 behind it. Between two
events other frames may be written to a WebSocket connection.

## Key results

- `Sent.run`: what effects write, along the modes of a conversation
- `account_sending`: the effects of a connection can be read, and the last one is the only
  `CloseConn`
- `OnWire.more`, `OnWire.frame`: what events and other frames add to the bytes of a connection
-/

namespace Httpoll.Native

open WebsocketConnection

variable {sha1 : Bytes → Vector UInt8 SHA_DIGEST_LENGTH}
  {hash : Vector UInt8 (SHA_DIGEST_LENGTH * 2)}

/-! ## Responses -/

/-- The response 404. -/
def notFoundResponse (version : HttpVersion) : Rfc7230.Response where
  head :=
    { version := httpVersionToString version
      code := 404
      reason := ascii "Not Found"
      fields := [] }
  body := []

/-- The response 101 with this accept key. -/
def switchResponse (version : HttpVersion) (accept : Bytes) : Rfc7230.Response where
  head :=
    { version := httpVersionToString version
      code := 101
      reason := ascii "Switching Protocols"
      fields :=
        [(ascii "Connection", ascii "Upgrade"), (ascii "Sec-WebSocket-Accept", accept),
          (ascii "Upgrade", ascii "websocket")] }
  body := []

private theorem fieldOk_empty : ∀ e ∈ ResponseHeaders.empty.entries, Rfc7230.FieldOk e :=
  fun _ he => absurd he List.not_mem_nil

private def notFoundCall (version : HttpVersion) : ResponseCall where
  statusCode := 404
  version := version
  headers := .empty
  body := []
  fieldsOk := fieldOk_empty

private theorem notFoundCall_response (version : HttpVersion) :
    (notFoundCall version).response = notFoundResponse version := rfl

private theorem bytes_respond (version : HttpVersion) :
    (Effect.respond 404 version).bytes sha1 hash = some (notFoundResponse version).encode := by
  rw [← notFoundCall_response]
  exact (notFoundCall version).make_eq

private theorem decode_notFound {version : HttpVersion}
    (hversion : (notFoundCall version).Versioned) :
    Rfc7230.decode (notFoundResponse version).encode = some (notFoundResponse version, []) := by
  have hbody : ¬ (sentCode 404 / 100 = 1 ∨ sentCode 404 = 204 ∨ sentCode 404 = 304) := by decide
  -- no length is given, so the client reads up to the close of the connection
  have hread := (Rfc7230.decode_encode_iff (notFoundCall version).wellFormed []).mpr
    (.inr ⟨rfl, (notFoundCall version).untilClose_iff.mpr
      ⟨hversion, hbody, fun _ he => absurd he List.not_mem_nil, rfl, rfl⟩⟩)
  rw [List.append_nil] at hread
  exact hread

/-- A client stops at the version when it is none. -/
private theorem decode_notFound_none {version : HttpVersion}
    (hversion : ¬ (notFoundCall version).Versioned) :
    Rfc7230.decode (notFoundResponse version).encode = none := by
  have hnone : ¬ Rfc7230.isVersion (notFoundCall version).response.head.version = true :=
    mt (notFoundCall version).isVersion_iff.mp hversion
  exact (Rfc7230.decode_encode_append (notFoundCall version).wellFormed []).trans (if_neg hnone)

/-! ## The accept key -/

/-- The accept key that a client of RFC 6455 expects. -/
def acceptOf (sha1 : Bytes → Vector UInt8 SHA_DIGEST_LENGTH) (wsKey : Bytes) : Bytes :=
  Rfc6455.accept (fun text => (sha1 text).toList) wsKey

private theorem getWsAcceptByKey_acceptOf (wsKey : Bytes) :
    getWsAcceptByKey sha1 hash wsKey = some (.ok (acceptOf sha1 wsKey)) := by
  -- 20 bytes in base64 are 28 characters; with the 0 they fit into the 40 of `hash`
  have hdigest : (sha1 (wsKey ++ acceptSuffix)).toList.length = 20 := Vector.length_toList
  have hhash : hash.toList.length = 40 := Vector.length_toList
  have hlength := Base64.length_encode (sha1 (wsKey ++ acceptSuffix)).toList
  have hfits : base64Encode (sha1 (wsKey ++ acceptSuffix)).toList hash.toList
      (some (SHA_DIGEST_LENGTH * 2)) = _ :=
    base64Encode_fits
      (fun len hlen => by rw [hdigest, ← Option.mem_some_iff.mp hlen]; decide)
      (by rw [hdigest, hhash]; decide)
  rw [hdigest] at hfits hlength
  have hload : CheckedBuffer.load (Base64.encode (sha1 (wsKey ++ acceptSuffix)).toList ++
      0 :: hash.toList.drop 29) 0 28 = .ok (acceptOf sha1 wsKey) := by
    rw [CheckedBuffer.load_of_le (by rw [List.length_append, hlength]; omega), List.drop_zero,
      List.take_left' hlength]
    rfl
  simp only [getWsAcceptByKey, hfits]
  exact congrArg some hload

private theorem fieldOk_accept (wsKey : Bytes) :
    Rfc7230.FieldOk (ascii "Sec-WebSocket-Accept", acceptOf sha1 wsKey) := by
  have hbyte : ∀ b ∈ Base64.pad :: Base64.alphabet,
      Rfc7230.isText b = true ∧ Rfc7230.isBlank b = false := by
    decide +kernel
  have hname : (ascii "Sec-WebSocket-Accept").all Rfc7230.isTchar = true := by decide
  exact .of_noBlank (by simp [ascii]) hname fun b hb => hbyte b (Base64.mem_encode hb)

private def switchCall (sha1 : Bytes → Vector UInt8 SHA_DIGEST_LENGTH) (version : HttpVersion)
    (wsKey : Bytes) : ResponseCall where
  statusCode := 101
  version := version
  headers := switchProtocolHeaders (acceptOf sha1 wsKey)
  body := []
  fieldsOk := by
    have hconnection : Rfc7230.FieldOk (ascii "Connection", ascii "Upgrade") := by decide
    have hupgrade : Rfc7230.FieldOk (ascii "Upgrade", ascii "websocket") := by decide
    intro e he
    simp only [switchProtocolHeaders, List.mem_cons, List.not_mem_nil, or_false] at he
    rcases he with rfl | rfl | rfl
    · exact hconnection
    · exact fieldOk_accept wsKey
    · exact hupgrade

private theorem bytes_switchProtocols (version : HttpVersion) (wsKey : Bytes) :
    (Effect.switchProtocols version wsKey).bytes sha1 hash =
      some (switchResponse version (acceptOf sha1 wsKey)).encode := by
  simp only [Effect.bytes, getWsAcceptByKey_acceptOf]
  exact (switchCall sha1 version wsKey).make_eq

private theorem decode_switch {version : HttpVersion}
    (hversion : version = .HTTP_1_1 ∨ version = .HTTP_1_0) (wsKey rest : Bytes) :
    Rfc7230.decode ((switchResponse version (acceptOf sha1 wsKey)).encode ++ rest) =
      some (switchResponse version (acceptOf sha1 wsKey), rest) := by
  have hversioned : (switchCall sha1 version wsKey).Versioned := by
    rcases hversion with rfl | rfl
    · exact .inr (.inl rfl)
    · exact .inl rfl
  have hbodyless : (switchCall sha1 version wsKey).Bodyless := .inl rfl
  exact (Rfc7230.decode_encode_iff (switchCall sha1 version wsKey).wellFormed rest).mpr
    (.inl ((switchCall sha1 version wsKey).delimited_iff.mpr
      ⟨hversioned, .inl ⟨hbodyless, rfl⟩⟩))

/-! ## What has been written in a mode -/

namespace Server

open Connection

/-- The frames of these messages. -/
def framesOf (messages : List (WsFrameType × Bytes)) : Bytes :=
  messages.flatMap fun m => wsFrame m.2 m.1

/-- What an effect has to meet to be read by a client. -/
def Readable : Effect → Prop
  | .write data => data.length ≤ SMALL_MEMORY
  | .switchProtocols version _ => version = .HTTP_1_1 ∨ version = .HTTP_1_0
  | _ => True

/-- The response 101, and the frames of these messages. -/
structure Upgrading (sha1 : Bytes → Vector UInt8 SHA_DIGEST_LENGTH) (wsKey : Bytes)
    (messages : List (WsFrameType × Bytes)) (bytes : Bytes) : Prop where
  short : ∀ m ∈ messages, m.2.length < 0xffff
  sent : ∃ version, (version = HttpVersion.HTTP_1_1 ∨ version = .HTTP_1_0) ∧
    bytes = (switchResponse version (acceptOf sha1 wsKey)).encode ++ framesOf messages

/-- What has been written when the conversation is in this mode. -/
inductive Sent (sha1 : Bytes → Vector UInt8 SHA_DIGEST_LENGTH) :
    Mode → List (WsFrameType × Bytes) → Bytes → Prop where
  | http : Sent sha1 .http [] []
  | connected : Sent sha1 .connected [] []
  | missing (version : HttpVersion) : Sent sha1 .missing [] (notFoundResponse version).encode
  | switched {wsKey bytes : Bytes} {messages : List (WsFrameType × Bytes)}
    (h : Upgrading sha1 wsKey messages bytes) : Sent sha1 (.switched wsKey) messages bytes
  | websocket {wsKey bytes : Bytes} {messages : List (WsFrameType × Bytes)}
    (h : Upgrading sha1 wsKey messages bytes) : Sent sha1 (.websocket (some wsKey)) messages bytes
  | pong {wsKey bytes : Bytes} {messages : List (WsFrameType × Bytes)}
    (h : Upgrading sha1 wsKey messages bytes) (header : Bytes) :
    Sent sha1 (.pong (some wsKey) header) messages (bytes ++ header)
  | leaving {wsKey bytes : Bytes} {messages : List (WsFrameType × Bytes)}
    (h : Upgrading sha1 wsKey messages bytes) : Sent sha1 (.leaving (some wsKey)) messages bytes

variable {pingPong : Bool} {mode mode' : Mode} {effect : Effect} {bytes : Bytes}
  {messages : List (WsFrameType × Bytes)}

/-- One more frame. -/
theorem Upgrading.frame {wsKey : Bytes} (h : Upgrading sha1 wsKey messages bytes)
    {data : Bytes} (hlen : data.length < 0xffff) (type : WsFrameType) :
    Upgrading sha1 wsKey (messages ++ [(type, data)]) (bytes ++ wsFrame data type) := by
  -- the frame comes behind the others, and the response stays in front
  obtain ⟨version, hversion, rfl⟩ := h.sent
  refine ⟨?_, version, hversion, ?_⟩
  · intro m hm
    rcases List.mem_append.mp hm with hm | hm
    · exact h.short m hm
    · rw [List.mem_singleton.mp hm]
      exact hlen
  · simp [framesOf]

/-- The messages that `Read` sends. -/
def ArePongs (messages : List (WsFrameType × Bytes)) : Prop := ∀ m ∈ messages, m.1 = .kTypePong

/-- The effects have written `more`, with whole pongs. -/
def SentMore (sha1 : Bytes → Vector UInt8 SHA_DIGEST_LENGTH) (mode : Mode)
    (messages : List (WsFrameType × Bytes)) (bytes : Bytes) : Prop :=
  ∃ pongs, ArePongs pongs ∧ Sent sha1 mode (messages ++ pongs) bytes

theorem Sent.sentMore (h : Sent sha1 mode messages bytes) :
    SentMore sha1 mode messages (bytes ++ []) := by
  rw [List.append_nil]
  refine ⟨[], fun _ hm => absurd hm List.not_mem_nil, ?_⟩
  rw [List.append_nil]
  exact h

variable (pingPong) in
/-- What may happen on a WebSocket connection. -/
private theorem Upgrading.next {wsKey : Bytes} (h : Upgrading sha1 wsKey messages bytes)
    (hclose : effect ≠ .close)
    (hnext : Mode.nextFrame pingPong (some wsKey) effect = some mode') :
    ∃ more, effect.bytes sha1 hash = some more ∧
      SentMore sha1 mode' messages (bytes ++ more) := by
  cases effect with
  | onData opcode payload =>
    obtain ⟨-, heq⟩ := Option.ite_none_right_eq_some.mp hnext
    cases heq
    exact ⟨[], rfl, (Sent.websocket h).sentMore⟩
  | write header =>
    obtain ⟨-, heq⟩ := Option.ite_none_right_eq_some.mp hnext
    cases heq
    refine ⟨header, rfl, [], fun _ hm => absurd hm List.not_mem_nil, ?_⟩
    rw [List.append_nil]
    exact .pong h header
  | wsWillCloseHook uri =>
    cases hnext
    exact ⟨[], rfl, (Sent.leaving h).sentMore⟩
  | close => exact absurd rfl hclose
  | _ => cases hnext

variable (hash) in
/-- **One effect.** -/
theorem Sent.next (h : Sent sha1 mode messages bytes) (hreadable : Readable effect)
    (hclose : effect ≠ .close) (hnext : Mode.next pingPong mode effect = some mode') :
    ∃ more, effect.bytes sha1 hash = some more ∧
      SentMore sha1 mode' messages (bytes ++ more) := by
  -- the response 101 can come after the connect hook, or without one
  have hswitch : ∀ version wsKey, Readable (.switchProtocols version wsKey) →
      ∃ more, (Effect.switchProtocols version wsKey).bytes sha1 hash = some more ∧
        SentMore sha1 (.switched wsKey) [] ([] ++ more) := by
    intro version wsKey hversion
    have hfirst : Sent sha1 (.switched wsKey) []
        (switchResponse version (acceptOf sha1 wsKey)).encode :=
      .switched ⟨fun _ hm => absurd hm List.not_mem_nil, version, hversion,
        (List.append_nil _).symm⟩
    refine ⟨_, bytes_switchProtocols version wsKey, ?_⟩
    rw [List.nil_append, ← List.append_nil (Rfc7230.Response.encode _)]
    exact hfirst.sentMore
  cases h with
  | http =>
    cases effect with
    | handler => cases hnext; exact ⟨[], rfl, Sent.http.sentMore⟩
    | respond code version =>
      obtain ⟨rfl, heq⟩ := Option.ite_none_right_eq_some.mp hnext
      cases heq
      refine ⟨_, bytes_respond version, ?_⟩
      rw [List.nil_append, ← List.append_nil (Rfc7230.Response.encode _)]
      exact (Sent.missing version).sentMore
    | wsConnectHook uri => cases hnext; exact ⟨[], rfl, Sent.connected.sentMore⟩
    | switchProtocols version wsKey =>
      cases hnext
      exact hswitch version wsKey hreadable
    | close => exact absurd rfl hclose
    | _ => cases hnext
  | connected =>
    cases effect with
    | switchProtocols version wsKey =>
      cases hnext
      exact hswitch version wsKey hreadable
    | close => exact absurd rfl hclose
    | _ => cases hnext
  | missing version =>
    cases effect with
    | close => exact absurd rfl hclose
    | _ => cases hnext
  | switched h =>
    cases effect with
    | wsReadyHook uri =>
      cases hnext
      exact ⟨[], rfl, (Sent.websocket h).sentMore⟩
    | _ => exact h.next pingPong hclose hnext
  | websocket h => exact h.next pingPong hclose hnext
  | @pong _ before _ h header =>
    cases effect with
    | write payload =>
      obtain ⟨rfl, heq⟩ := Option.ite_none_right_eq_some.mp hnext
      cases heq
      -- header and payload together are the frame of a pong
      have hlen : payload.length < 0xffff := Nat.lt_of_le_of_lt hreadable (by decide)
      refine ⟨payload, rfl, [(.kTypePong, payload)], fun m hm => ?_, ?_⟩
      · rw [List.mem_singleton.mp hm]
      · rw [List.append_assoc]
        exact .websocket (h.frame hlen .kTypePong)
    | _ => cases hnext
  | leaving h =>
    cases effect with
    | close => exact absurd rfl hclose
    | _ => cases hnext

variable (hash) in
/-- **Several effects.** -/
theorem Sent.run (h : Sent sha1 mode messages bytes) {effects : List Effect}
    (hreadable : ∀ effect ∈ effects, Readable effect) (hclose : Effect.close ∉ effects)
    (hrun : effects.foldlM (Mode.next pingPong) mode = some mode') :
    ∃ sent, effects.foldlM (pollWrite sha1 hash) bytes = some sent ∧
      SentMore sha1 mode' messages sent := by
  -- the machine and the bytes go on together; the pongs so far are kept apart from `messages`
  have hstep : ∀ mode bytes effect mode', SentMore sha1 mode messages bytes →
      (Readable effect ∧ effect ≠ .close) → Mode.next pingPong mode effect = some mode' →
      ∃ sent, pollWrite sha1 hash bytes effect = some sent ∧
        SentMore sha1 mode' messages sent := by
    rintro mode bytes effect mode' ⟨pongs, hpongs, h⟩ ⟨hreadable, hclose⟩ hnext
    obtain ⟨more, hmore, pongs', hpongs', h'⟩ := h.next hash hreadable hclose hnext
    refine ⟨bytes ++ more, by rw [pollWrite, hmore]; rfl, pongs ++ pongs', ?_, ?_⟩
    · exact List.forall_mem_append.mpr ⟨hpongs, hpongs'⟩
    · rw [← List.append_assoc]
      exact h'
  have halong : Runs.Along (Mode.next pingPong)
      (fun _ effect => Readable effect ∧ effect ≠ .close) mode effects :=
    Runs.along_of_forall
      (fun effect heffect _ => ⟨hreadable effect heffect, fun heq => hclose (heq ▸ heffect)⟩) _
  have hinit := h.sentMore
  rw [List.append_nil] at hinit
  obtain ⟨sent, hsent, h'⟩ := Runs.simulation id hstep hinit halong hrun
  rw [List.map_id] at hsent
  exact ⟨sent, hsent, h'⟩

/-! ## What a client reads -/

/-- What a client makes of the bytes that it reads: nothing yet, the response 404, or the response
    101 with the accept key for a key, and these messages. A 404 that tells no version of HTTP
    cannot be read: the parser has none after a request line with a method or a version that it
    does not know. -/
inductive Reading (sha1 : Bytes → Vector UInt8 SHA_DIGEST_LENGTH) :
    Option Bytes → List (WsFrameType × Bytes) → Bytes → Prop where
  | nothing : Reading sha1 none [] []
  | notFound {bytes : Bytes} (version : HttpVersion)
    (hread : Rfc7230.decode bytes = some (notFoundResponse version, [])) :
    Reading sha1 none [] bytes
  | unreadable {bytes : Bytes} (version : HttpVersion)
    (hversion : version = .UNKNOWN ∨ version = .WS)
    (hbytes : bytes = (notFoundResponse version).encode) (hread : Rfc7230.decode bytes = none) :
    Reading sha1 none [] bytes
  | switched {bytes frames : Bytes} {messages : List (WsFrameType × Bytes)}
    (version : HttpVersion) (wsKey : Bytes)
    (hread : Rfc7230.decode bytes =
      some (switchResponse version (acceptOf sha1 wsKey), frames))
    (hframes : Rfc6455.Reads frames (messages.map fun m => messageFrame m.2 m.1)) :
    Reading sha1 (some wsKey) messages bytes

theorem Upgrading.reading {wsKey : Bytes} (h : Upgrading sha1 wsKey messages bytes) :
    Reading sha1 (some wsKey) messages bytes := by
  obtain ⟨version, hversion, rfl⟩ := h.sent
  refine .switched version wsKey (decode_switch hversion wsKey _) ?_
  have hframes : framesOf messages =
      (messages.map fun m => messageFrame m.2 m.1).flatMap Rfc6455.Frame.encode := by
    rw [framesOf, List.flatMap_map]
    apply List.flatMap_congr
    intro m hm
    exact wsFrame_eq_encode (h.short m hm) m.1
  -- frames that are encoded one after the other are read one after the other
  rw [hframes]
  apply Rfc6455.reads_flatMap_encode
  intro f hf
  obtain ⟨m, hm, rfl⟩ := List.mem_map.mp hf
  exact Nat.lt_trans (h.short m hm) (by decide)

/-- A conversation that can be closed, or that waits. -/
theorem Sent.reading (h : Sent sha1 mode messages bytes)
    (hpong : ∀ wsKey header, mode ≠ .pong wsKey header) :
    ∃ key, Reading sha1 key messages bytes := by
  cases h with
  | http | connected => exact ⟨none, .nothing⟩
  | missing version =>
    by_cases hversion : (notFoundCall version).Versioned
    · exact ⟨none, .notFound version (decode_notFound hversion)⟩
    · refine ⟨none, .unreadable version ?_ rfl (decode_notFound_none hversion)⟩
      change ¬ (version = .HTTP_1_0 ∨ version = .HTTP_1_1 ∨ version = .HTTP_2_0) at hversion
      cases version <;> simp_all
  | switched h | websocket h | leaving h => exact ⟨_, h.reading⟩
  | pong h header => exact absurd rfl (hpong _ header)

/-! ## Lengths and versions -/

variable {σ : Type} {regexMatch : Bytes → Bytes → Option Bool} {table : HandlerTable σ}
  {c : Connection σ} {s s' : Socket} {user : σ}

private theorem read_within (answer : Answer) (unread : Bytes) (len : Nat) :
    (answer.read unread len).1.Within len := by
  unfold Answer.read
  split
  · exact Nat.zero_le _
  · cases answer with
    | ready k =>
      dsimp only
      split
      · trivial
      · exact Nat.le_trans (List.length_take_le _ _) (Nat.min_le_right _ _)
    | fail e => trivial
    | closed => exact Nat.zero_le _

private theorem connAfterDispatch_bounded (h : c.Bounded) (ret : Int) :
    (connAfterDispatch regexMatch table ret c user).Bounded := by
  unfold connAfterDispatch
  split
  · split
    · rename_i handlers _ _
      have hstep : Op.step c (.upgradeToWebsocket handlers.wsMessageHandler
          handlers.wsWillCloseHook) = some _ := rfl
      exact Op.step_bounded h hstep
    · split <;> exact h
  · exact h

/-- An event keeps the bound on the input buffer. -/
private theorem connAfter_bounded (h : c.Bounded) :
    (connAfter regexMatch pingPong table c s user).Bounded := by
  unfold connAfter
  split
  · rename_i ws hws
    split
    · exact h
    · rename_i answer answers hanswers
      split
      · rename_i o hread
        -- an event of a WebSocket connection is one `Read`
        have hstep : Op.step c (.websocketRead pingPong
            (answer.read s.unread c.readLen).1 user) = some o.conn := by
          simp only [Op.step, hws, if_pos (read_within answer s.unread c.readLen), hread]
        exact Op.step_bounded h hstep
      · exact h
  · split
    · rename_i ret c₁ s₁ log hcall
      -- any other event is one `ProcessDataIn`, and the dispatch does not touch the buffer
      have hstep : Op.step c (.processDataIn s) = some c₁ := by
        simp only [Op.step, hcall]
      have h₁ := Op.step_bounded h hstep
      split
      · exact connAfterDispatch_bounded h₁ ret
      · exact h₁
    · exact h

private theorem readPayload_length {buf payload : Bytes} {masked : Bool} {offset n : Nat}
    (h : readPayload buf masked offset n = .ok payload) : payload.length ≤ buf.length := by
  unfold readPayload at h
  split at h
  · simp only [bind, Except.bind] at h
    split at h
    · cases h
    split at h
    · cases h
    · rename_i hrange
      -- unmasking does not change the length
      rw [← CheckedBuffer.length_of_mapRange hrange]
      exact CheckedBuffer.length_le_of_load h
  · exact CheckedBuffer.length_le_of_load h

/-- A payload is a part of the buffer. -/
theorem length_payload_le {buf : Bytes} {frame : RawFrame} (h : readFrame buf = .ok frame) :
    frame.payload.length ≤ buf.length := by
  simp only [readFrame, bind, Except.bind] at h
  split at h
  · cases h
  split at h
  · cases h
  split at h
  · cases h
  · rename_i hpayload
    cases h
    exact readPayload_length hpayload

private theorem length_header_le (n : Nat) (type : WsFrameType) :
    (makeWebsocketHeader n type).length ≤ SMALL_MEMORY := by
  unfold makeWebsocketHeader SMALL_MEMORY
  dsimp only
  split
  · simp
  · split <;> simp

private theorem handleFrame_writes (ws : WebsocketConnection σ) (c : Connection σ) (user : σ)
    (frame : RawFrame) :
    (ws.handleFrame pingPong c user frame).writes = [] ∨
      (ws.handleFrame pingPong c user frame).writes =
        [makeWebsocketHeader frame.payload.length .kTypePong, frame.payload] := by
  unfold handleFrame WebsocketConnection.write
  dsimp only
  split
  · exact .inl rfl
  split
  · split
    · exact .inl rfl
    · exact .inr rfl
  split
  · exact .inl rfl
  split
  · split <;> exact .inl rfl
  · exact .inl rfl

/-- What a `Read` writes is no longer than the buffer. -/
private theorem read_writes {ws : WebsocketConnection σ} (h : c.Bounded) {r : ReadResult}
    (hr : r.Within c.readLen) {o : ReadOutcome σ} (hread : ws.read pingPong c r user = .ok o) :
    ∀ data ∈ o.writes, data.length ≤ SMALL_MEMORY := by
  have hbuffer := read_bounded h hr
  unfold WebsocketConnection.read at hread
  dsimp only at hread
  split at hread
  · cases hread
    exact fun data hdata => absurd hdata List.not_mem_nil
  · cases hframe : readFrame (c.read r).2.buffer with
    | error f => rw [hframe] at hread; cases hread
    | ok frame =>
      rw [hframe] at hread
      cases hread
      -- the payload of a pong is that of the ping, which was in the buffer
      have hpayload := Nat.le_trans (length_payload_le hframe) hbuffer
      rcases handleFrame_writes ws { (c.read r).2 with buffer := [] } user frame with
        hnil | hpong
      · rw [hnil]
        exact fun data hdata => absurd hdata List.not_mem_nil
      · rw [hpong]
        exact List.forall_mem_cons.mpr
          ⟨length_header_le _ _, List.forall_mem_singleton.mpr hpayload⟩

/-- An effect that is read by a client, and is no call of `CloseConn`. -/
def Sendable (effect : Effect) : Prop := Readable effect ∧ effect ≠ .close

/-- `Poll` closes the connection at the end of the event, if it does. -/
def ClosesLast (r : Served σ) : Prop :=
  ∃ before, (∀ effect ∈ before, Sendable effect) ∧
    r.effects = before ++ if r.conn.isNone then [.close] else []

private theorem callHook_sendable (hook : Option (WsHook σ)) (uri : Bytes) {e : Effect} (n : Int)
    (user : σ) (he : Sendable e) :
    ∀ effect ∈ (callHook hook uri e n user).2.2, Sendable effect := by
  cases hook with
  | none => exact fun effect heffect => absurd heffect List.not_mem_nil
  | some hook => exact List.forall_mem_singleton.mpr he

private theorem connWrite_sendable {e : Effect} (he : Sendable e) :
    ∀ effect ∈ connWrite c e, Sendable effect := by
  unfold connWrite
  split
  · exact fun effect heffect => absurd heffect List.not_mem_nil
  · exact List.forall_mem_singleton.mpr he

private theorem upgrade_closesLast {handlers : RequestHandler σ} {ws : WebsocketConnection σ}
    (hversion : c.parser.version = .HTTP_1_1 ∨ c.parser.version = .HTTP_1_0) :
    ClosesLast (upgrade handlers ws c user) := by
  have hconnect := fun n user => callHook_sendable handlers.wsConnectHook c.parser.uri n user
    (e := .wsConnectHook c.parser.uri) ⟨trivial, nofun⟩
  have hready := fun n user => callHook_sendable handlers.wsReadyHook c.parser.uri n user
    (e := .wsReadyHook c.parser.uri) ⟨trivial, nofun⟩
  have hrsp := connWrite_sendable (c := c) (e := .switchProtocols c.parser.version ws.wsKey)
    ⟨hversion, nofun⟩
  unfold upgrade
  dsimp only
  split
  · exact ⟨_, hconnect _ _, rfl⟩
  · -- the response, with what the two hooks were called for
    have hall := fun n m user user' => List.forall_mem_append.mpr
      ⟨List.forall_mem_append.mpr ⟨hconnect n user, hrsp⟩, hready m user'⟩
    split
    · exact ⟨_, hall _ _ _ _, rfl⟩
    · exact ⟨_, hall _ _ _ _, (List.append_nil _).symm⟩

/-- The effects of an event. -/
private theorem event_closesLast (h : c.Bounded) {r : Served σ}
    (hserved : pollEvent regexMatch pingPong table c s user = some (.served r s')) :
    ClosesLast r := by
  have hnil : ∀ effect ∈ ([] : List Effect), Sendable effect :=
    fun effect heffect => absurd heffect List.not_mem_nil
  cases pollEvent_served hserved with
  | @websocket ws hws answer answers hanswers o hread =>
    have hwrites := read_writes h (read_within answer s.unread c.readLen) hread
    have hframe : ∀ effect ∈ (o.call.map fun call => Effect.onData call.1 call.2).toList ++
        o.writes.map .write, Sendable effect := by
      intro effect heffect
      rcases List.mem_append.mp heffect with heffect | heffect
      · obtain ⟨call, -, rfl⟩ := Option.map_eq_some_iff.mp (Option.mem_toList.mp heffect)
        exact ⟨trivial, nofun⟩
      · obtain ⟨data, hdata, rfl⟩ := List.mem_map.mp heffect
        exact ⟨hwrites data hdata, nofun⟩
    unfold afterRead
    dsimp only
    split
    · have hhook := callHook_sendable ws.willCloseHook [] 0 o.user
        (e := .wsWillCloseHook []) ⟨trivial, nofun⟩
      exact ⟨_, List.forall_mem_append.mpr ⟨hframe, hhook⟩, rfl⟩
    · exact ⟨_, hframe, (List.append_nil _).symm⟩
  | failed => exact ⟨[], hnil, rfl⟩
  | incomplete => exact ⟨[], hnil, rfl⟩
  | dispatched hdisp hr =>
    cases dispatch_answered hr with
    | notFound hfind => exact ⟨_, connWrite_sendable (e := .respond 404 _) ⟨trivial, nofun⟩, rfl⟩
    | @upgraded handlers hfind hup ws c' hws =>
      apply upgrade_closesLast
      rw [upgradeToWebsocket_eq hws]
      -- an upgrade is granted to these two versions only
      unfold shouldUpgradeWebsocket at hup
      split at hup
      · cases hup
      · simpa using (Bool.and_eq_true_iff.mp hup).2
    | @called handlers hfind hup handler hat =>
      unfold callHandler
      cases handler with
      | none => exact ⟨[], hnil, rfl⟩
      | some handler =>
        have hcall := fun method uri body isFinal => List.forall_mem_singleton.mpr
          (show Sendable (.handler method uri body isFinal) from ⟨trivial, nofun⟩)
        dsimp only
        split
        · exact ⟨[_], hcall _ _ _ _, rfl⟩
        · exact ⟨[_], hcall _ _ _ _, rfl⟩

/-! ## Runs -/

/-- What has happened on a connection can be read and is what the conversation says, and a
    connection that `Poll` has closed is no more. -/
structure Sending (pingPong : Bool) (conn : Option (Connection σ)) (effects : List Effect) :
    Prop where
  readable : ∀ effect ∈ effects, Readable effect
  waits : ∃ mode c, effects.foldlM (Mode.next pingPong) Mode.http = some mode ∧
    Waits mode (some c) ∧ c.Bounded ∧ ∀ c' ∈ conn, c' = c
  last : Effect.close ∉ effects.dropLast
  closed : Effect.close ∈ effects → conn = none

variable {effects added : List Effect} {conn : Option (Connection σ)}

theorem Sending.free (h : Sending pingPong conn effects) :
    Sending pingPong (none : Option (Connection σ)) effects := by
  obtain ⟨mode, c, hmode, hwaits, hbounded, -⟩ := h.waits
  exact ⟨h.readable, ⟨mode, c, hmode, hwaits, hbounded,
    fun c' hc' => absurd hc' (Option.not_mem_none c')⟩, h.last, fun _ => rfl⟩

/-- **One event**, after which the connection is freed if `Poll` closes it. -/
private theorem Sending.event (h : Sending pingPong (some c) effects) (hfd : c.fd ≠ -1)
    {r : Served σ}
    (hserved : pollEvent regexMatch pingPong table c s user = some (.served r s')) :
    Sending pingPong (survivor r.conn.isNone true (connAfter regexMatch pingPong table c s user))
      (effects ++ r.effects) := by
  obtain ⟨mode, c₀, hmode, hwaits, hbounded, hsame⟩ := h.waits
  obtain rfl := hsame c rfl
  obtain ⟨mode', hmode', hwaits'⟩ := hwaits.event hfd hserved
  obtain ⟨before, hsendable, heffects⟩ := event_closesLast hbounded hserved
  -- the connection is still there, so `Poll` has not closed it, nor does `before`
  have hopen : Effect.close ∉ effects := fun hmem => Option.some_ne_none c (h.closed hmem)
  have hbefore : Effect.close ∉ effects ++ before := by
    rw [List.mem_append, not_or]
    exact ⟨hopen, fun hmem => (hsendable _ hmem).2 rfl⟩
  have hrun : (effects ++ r.effects).foldlM (Mode.next pingPong) Mode.http = some mode' := by
    rw [Runs.foldlM_append_of_some hmode]
    exact hmode'
  constructor
  · rw [heffects]
    intro effect heffect
    rcases List.mem_append.mp heffect with heffect | heffect
    · exact h.readable effect heffect
    · rcases List.mem_append.mp heffect with heffect | heffect
      · exact (hsendable effect heffect).1
      · split at heffect
        · obtain rfl := List.mem_singleton.mp heffect
          trivial
        · exact absurd heffect List.not_mem_nil
  · refine ⟨mode', _, hrun, hwaits', connAfter_bounded hbounded, ?_⟩
    intro c' hc'
    -- after the event the connection is the one that the event leaves, or none
    unfold survivor at hc'
    split at hc'
    · cases hc'
    · exact (Option.mem_some_iff.mp hc').symm
  · rw [heffects, ← List.append_assoc]
    split
    · rw [List.dropLast_concat]
      exact hbefore
    · rw [List.append_nil]
      exact fun hmem => hbefore (List.mem_of_mem_dropLast hmem)
  · intro hmem
    rw [heffects, ← List.append_assoc] at hmem
    split at hmem
    · rename_i hclosed
      exact if_pos ⟨hclosed, rfl⟩
    · rw [List.append_nil] at hmem
      exact absurd hmem hbefore

/-- The account of a connection for which no `epoll_ctl(2)` fails when it is closed. -/
theorem account_sending : Account regexMatch pingPong (fun _ => True) (fun del => del = true)
    (Sending (σ := σ) pingPong) := by
  have hnil : ∀ effect ∈ ([] : List Effect), Readable effect :=
    fun effect heffect => absurd heffect List.not_mem_nil
  have hclose : Effect.close ∉ ([] : List Effect) := List.not_mem_nil
  have hnew : ∀ fd : Int, ({ fd } : Connection σ).Bounded := fun _ => Nat.zero_le _
  constructor
  · exact ⟨hnil, ⟨.http, { fd := 0 }, rfl, .http rfl, hnew 0,
      fun c' hc' => absurd hc' (Option.not_mem_none c')⟩, hclose, fun _ => rfl⟩
  · exact fun fd _ => ⟨hnil, ⟨.http, { fd }, rfl, .http rfl, hnew fd,
      fun c' hc' => (Option.mem_some_iff.mp hc').symm⟩, hclose, fun hmem => absurd hmem hclose⟩
  · rintro table c s s' user effects r del - rfl hfd h hserved
    exact h.event (by omega) hserved
  · exact fun c effects h => h.free

/-! ## The bytes of a connection -/

/-- What has been written to a connection that has gone through `effects`: the conversation goes
    on, or `Poll` has closed the connection. -/
inductive OnWire (sha1 : Bytes → Vector UInt8 SHA_DIGEST_LENGTH) (pingPong : Bool)
    (effects : List Effect) (messages : List (WsFrameType × Bytes)) (bytes : Bytes) : Prop where
  | goesOn {mode : Mode} (hopen : Effect.close ∉ effects)
    (hmode : effects.foldlM (Mode.next pingPong) Mode.http = some mode)
    (h : Sent sha1 mode messages bytes) : OnWire sha1 pingPong effects messages bytes
  | ended (hclosed : Effect.close ∈ effects) (h : ∃ key, Reading sha1 key messages bytes) :
    OnWire sha1 pingPong effects messages bytes

/-- A WebSocket connection has asked for its upgrade with this key. -/
def AskedWith (key : Option Bytes) (conn : Option (Connection σ)) : Prop :=
  ∀ c ∈ conn, c.wsConn.isSome = true →
    key.isSome = true ∧ (wsKeyNames.map c.parser.getHeader).find? (· != []) = key

namespace OnWire

theorem reading (h : OnWire sha1 pingPong effects messages bytes)
    (hsending : Sending pingPong conn effects) :
    ∃ key, Reading sha1 key messages bytes ∧ AskedWith key conn := by
  cases h with
  | ended hclosed h =>
    obtain ⟨key, hreading⟩ := h
    refine ⟨key, hreading, ?_⟩
    rw [hsending.closed hclosed]
    exact fun c hc => absurd hc (Option.not_mem_none c)
  | @goesOn mode hopen hmode h =>
    obtain ⟨mode', c, hmode', hwaits, -, hsame⟩ := hsending.waits
    -- the bytes say which response was sent, and the mode which connection waits
    obtain rfl : mode = mode' := Option.some.inj (hmode.symm.trans hmode')
    cases hwaits with
    | http hplain =>
      obtain ⟨key, hreading⟩ := h.reading nofun
      refine ⟨key, hreading, ?_⟩
      intro c' hc' hws
      rw [hsame c' hc', hplain] at hws
      cases hws
    | switched hup =>
      cases h with
      | switched h =>
        refine ⟨_, h.reading, ?_⟩
        intro c' hc' _
        rw [hsame c' hc']
        exact ⟨rfl, hup.key⟩
    | websocket hup hkey =>
      cases h with
      | @websocket wsKey _ _ h =>
        refine ⟨_, h.reading, ?_⟩
        intro c' hc' _
        rw [hsame c' hc', hkey wsKey rfl]
        exact ⟨rfl, hup.key⟩

variable (hash) in
/-- **The effects of a call.** -/
theorem more (h : OnWire sha1 pingPong effects messages bytes)
    (hsending : Sending pingPong conn (effects ++ added)) :
    ∃ sent pongs, added.foldlM (pollWrite sha1 hash) bytes = some sent ∧ ArePongs pongs ∧
      OnWire sha1 pingPong (effects ++ added) (messages ++ pongs) sent := by
  have hnone : ArePongs [] := fun _ hm => absurd hm List.not_mem_nil
  cases h with
  | ended hclosed h =>
    -- nothing comes behind a `CloseConn`
    have hnil : added = [] := by
      by_contra hne
      have hlast := hsending.last
      rw [List.dropLast_append_of_ne_nil hne] at hlast
      exact hlast (List.mem_append_left _ hclosed)
    subst hnil
    refine ⟨bytes, [], rfl, hnone, ?_⟩
    rw [List.append_nil, List.append_nil]
    exact .ended hclosed h
  | goesOn hopen hmode h =>
    obtain ⟨mode', c, hmode', hwaits, -⟩ := hsending.waits
    have hadded := hmode'
    rw [Runs.foldlM_append_of_some hmode] at hadded
    have hreadable := fun effect heffect =>
      hsending.readable effect (List.mem_append_right effects heffect)
    by_cases hclose : Effect.close ∈ added
    · -- nothing is written for the last effect
      obtain ⟨before, rfl⟩ : ∃ before, added = before ++ [Effect.close] := by
        rcases List.eq_nil_or_concat' added with rfl | ⟨before, last, rfl⟩
        · exact absurd hclose List.not_mem_nil
        · have hlast := hsending.last
          rw [← List.append_assoc, List.dropLast_concat, List.mem_append, not_or] at hlast
          rcases List.mem_append.mp hclose with hmem | hmem
          · exact absurd hmem hlast.2
          · rw [← List.mem_singleton.mp hmem]
            exact ⟨before, rfl⟩
      have hlast := hsending.last
      rw [← List.append_assoc, List.dropLast_concat, List.mem_append, not_or] at hlast
      obtain ⟨mode₁, hbefore, hnext⟩ := Runs.foldlM_append_eq_some.mp hadded
      obtain ⟨sent, hsent, pongs, hpongs, h'⟩ := h.run hash
        (fun effect heffect => hreadable effect (List.mem_append_left _ heffect)) hlast.2 hbefore
      refine ⟨sent, pongs, ?_, hpongs, .ended (List.mem_append_right _ hclose) (h'.reading ?_)⟩
      · rw [Runs.foldlM_append_of_some hsent]
        simp [pollWrite, Effect.bytes]
      · rintro wsKey header rfl
        cases hnext
    · obtain ⟨sent, hsent, pongs, hpongs, h'⟩ := h.run hash hreadable hclose hadded
      refine ⟨sent, pongs, hsent, hpongs, .goesOn ?_ hmode' h'⟩
      rw [List.mem_append, not_or]
      exact ⟨hopen, hclose⟩

/-- **A frame** that is written to a WebSocket connection between two events. -/
theorem frame (h : OnWire sha1 pingPong effects messages bytes)
    (hsending : Sending pingPong (some c) effects) (hws : c.wsConn.isSome = true) {data : Bytes}
    (hlen : data.length < 0xffff) (type : WsFrameType) :
    OnWire sha1 pingPong effects (messages ++ [(type, data)]) (bytes ++ wsFrame data type) := by
  cases h with
  | ended hclosed h => cases hsending.closed hclosed
  | @goesOn mode hopen hmode h =>
    obtain ⟨mode', c₀, hmode', hwaits, -, hsame⟩ := hsending.waits
    obtain rfl := hsame c rfl
    obtain rfl : mode = mode' := Option.some.inj (hmode.symm.trans hmode')
    -- a frame does not change the mode: it is no effect of an event
    apply OnWire.goesOn hopen hmode
    cases hwaits with
    | http hplain =>
      rw [hplain] at hws
      cases hws
    | switched hup =>
      cases h with
      | switched h => exact .switched (h.frame hlen type)
    | websocket hup hkey =>
      cases h with
      | websocket h => exact .websocket (h.frame hlen type)

end OnWire

end Server

end Httpoll.Native
