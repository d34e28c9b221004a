import Httpoll.ForStd.Loop
import Httpoll.Spec.ConnectionLog
import Httpoll.Spec.KeepAlive

/-!
# Connections as readers

A reader is what a connection is for the user: it takes the stream of one peer part by part, gives
the requests in it to the handlers, and the messages behind an upgrade. In an event it reads until
the parser has a request for it, or there is nothing more to read. Then it must give the request,
if there is one, to the handler that is registered for it, or change to WebSocket if the request
asks for that. So what the kernel answers and what is registered leave it no choice.

The server is such a reader for each connection, whatever it does for the others in between.

## Key results

- `Follows.unique`: the events of a connection determine its reader
- `Follows.conserves`: what a reader has taken and what is in its buffer make up what it has
  received, so no byte is lost or read twice
- `At.event`: an event of the server is one of the reader
- `connection_reader`: in every run of the server, each connection is the reader of its own events
-/

namespace Httpoll.Native

/-! ## Readers -/

/-- A part that a reader takes of its stream. -/
inductive Part where
  /-- A line goes into the parser. -/
  | line (bytes : Bytes)
  /-- A part of a body without a line end goes into the parser, and is kept for the handler. -/
  | slice (bytes : Bytes)
  /-- A WebSocket frame is taken from the front of these bytes; the others are dropped. -/
  | frame (bytes : Bytes)
  deriving Repr, DecidableEq

/-- The bytes that are taken. -/
def Part.bytes : Part → Bytes
  | line bytes | slice bytes | frame bytes => bytes

/-- A reader. -/
structure Reader where
  /-- What it has received and not taken yet. -/
  buffer : Bytes := []
  parser : HttpHeaderParser := {}
  /-- The part of a body that is kept. -/
  body : Bytes := []
  /-- After the upgrade: whether there is a handler for messages, and the payloads of the frames
      of a message that is not complete. -/
  websocket : Option (Bool × Bytes) := none
  taken : List Part := []
  /-- What the user was given. -/
  given : List Effect := []

namespace Reader

/-- What a reader does next in an event. -/
inductive Phase where
  /-- It reads from the socket. -/
  | reading
  /-- It takes a part out of its buffer, or goes on reading. -/
  | taking
  /-- It gives the request to the user. -/
  | giving
  deriving Repr, DecidableEq

/-- A reader in an event. -/
structure Turn where
  reader : Reader
  socket : Socket
  phase : Phase

/-- A `read(2)` has this result. An event ends when the socket is drained, unless there is a
    request, or a connection that was upgraded. -/
def hear (r : Reader) (s : Socket) : ReadResult → Loop.Step Turn (Reader × Socket)
  | .data bytes =>
    if bytes = [] then .done (r, s) else .next ⟨{ r with buffer := r.buffer ++ bytes }, s, .taking⟩
  | .error .EINTR => .next ⟨r, s, .taking⟩
  | .error .EAGAIN =>
    if r.websocket.isSome then .next ⟨r, s, .taking⟩
    else if Connection.Stops r.parser then .next ⟨r, s, .giving⟩
    else .done (r, s)
  | .error .other => .done (r, s)

/-- A part goes into the parser, and `rest` stays in the buffer. -/
def push (r : Reader) (s : Socket) (part : Part) (rest : Bytes) :
    Option (Loop.Step Turn (Reader × Socket)) :=
  (r.parser.pushLine part.bytes).map fun parser =>
    .next ⟨{ r with buffer := rest, parser, taken := r.taken ++ [part] }, s,
      if Connection.Stops parser then .giving else .taking⟩

/-- A frame on a connection that was upgraded. -/
def frame (pingPong : Bool) (r : Reader) (listens : Bool) (payload : Bytes)
    (f : WebsocketConnection.RawFrame) : Reader :=
  let payload := payload ++ f.payload
  if f.opcode = WsFrameType.kTypeClose.toOpcode then
    { r with websocket := some (listens, payload) }
  else if pingPong ∧ (f.opcode = WsFrameType.kTypePing.toOpcode ∨
      f.opcode = WsFrameType.kTypePong.toOpcode) then
    { r with websocket := some (listens, []) }
  else if f.fin then
    { r with
      websocket := some (listens, [])
      given := r.given ++ if listens then [.onData f.opcode payload] else [] }
  else { r with websocket := some (listens, payload) }

/-- A part is taken out of the buffer, if there is one. -/
def take (pingPong : Bool) (r : Reader) (s : Socket) :
    Option (Loop.Step Turn (Reader × Socket)) :=
  match r.websocket with
  | some (listens, payload) =>
    match WebsocketConnection.readFrame r.buffer with
    | .error _ => none
    | .ok f =>
      let r' : Reader := { r with buffer := [], taken := r.taken ++ [.frame r.buffer] }
      some (.done (r'.frame pingPong listens payload f, s))
  | none =>
    match Lines.cut CR LF r.buffer with
    | some (line, rest) => r.push s (.line line) rest
    | none =>
      if r.buffer = [] ∨ r.parser.state ≠ .Body then some (.next ⟨r, s, .reading⟩)
      else
        let slice := r.buffer.take 1024
        { r with body := slice }.push s (.slice slice) (r.buffer.drop 1024)

/-- The request asks for a WebSocket connection. -/
def asksUpgrade (r : Reader) : Bool :=
  r.parser.upgradeFlags &&& UpgradeWebSocket != 0 &&
    r.parser.connectionFlags &&& ConnectionUpgrade != 0 &&
    (r.parser.version == .HTTP_1_1 || r.parser.version == .HTTP_1_0)

section Give

variable {σ : Type} (regexMatch : (pattern text : Bytes) → Option Bool)

/-- The request is given to the user: to the handler for its method of the entry that is found for
    its URI. There is no next state when this brings the server down. -/
def give (table : HandlerTable σ) (user : σ) (r : Reader) : Option Reader :=
  match Server.findRequestHandler regexMatch table r.parser.uri with
  | .error _ => none
  | .ok none => some r
  | .ok (some handlers) =>
    if r.asksUpgrade then
      -- without a key there is no WebSocket connection
      ((Connection.wsKeyNames.map r.parser.getHeader).find? (· != [])).map fun _ =>
        { r with websocket := some (handlers.wsMessageHandler.isSome, []) }
    else
      match Server.handlerAt handlers r.parser.method with
      | .error _ => none
      | .ok none => some r
      | .ok (some handler) =>
        let isFinal : Bool := r.parser.state = .Done
        some { r with
          body := (handler user r.parser.uri r.body isFinal).partialBody
          given := r.given ++ [.handler r.parser.method r.parser.uri r.body isFinal] }

variable (pingPong : Bool)

/-- What a reader does next in an event. -/
def turn (table : HandlerTable σ) (user : σ) (t : Turn) :
    Option (Loop.Step Turn (Reader × Socket)) :=
  match t.phase with
  | .reading =>
    match t.socket.answers with
    | [] => none
    | answer :: answers =>
      let (result, unread) := answer.read t.socket.unread (SMALL_MEMORY - t.reader.buffer.length)
      some (t.reader.hear ⟨unread, answers⟩ result)
  | .taking => t.reader.take pingPong t.socket
  | .giving => (t.reader.give regexMatch table user).map fun r => .done (r, t.socket)

end Give

end Reader

/-! ## Events of a reader -/

/-- An event of a connection: the handlers that are registered then and the user context, and the
    socket before and after it. -/
structure Visit (σ : Type) where
  table : HandlerTable σ
  user : σ
  before : Socket
  after : Socket

/-- What is read from the socket. -/
def Visit.received {σ : Type} (v : Visit σ) : Bytes :=
  v.before.unread.take (v.before.unread.length - v.after.unread.length)

namespace Reader

variable {σ : Type}

section Runs

variable (regexMatch : (pattern text : Bytes) → Option Bool) (pingPong : Bool)

/-- A reader is at `r'` after the event. -/
def Attends (v : Visit σ) (r r' : Reader) : Prop :=
  Loop.Returns (turn regexMatch pingPong v.table v.user) ⟨r, v.before, .reading⟩ (r', v.after)

/-- A reader is at `r'` after the events. -/
inductive Follows : Reader → List (Visit σ) → Reader → Prop where
  | nil (r : Reader) : Follows r [] r
  | cons {r r₁ r' : Reader} {v : Visit σ} {visits : List (Visit σ)}
    (hv : Attends regexMatch pingPong v r r₁) (h : Follows r₁ visits r') :
    Follows r (v :: visits) r'

end Runs

variable {regexMatch : Bytes → Bytes → Option Bool} {pingPong : Bool} {r r₁ r' : Reader}
  {v : Visit σ} {visits : List (Visit σ)}

theorem Follows.concat (h : Follows regexMatch pingPong r visits r₁)
    (hv : Attends regexMatch pingPong v r₁ r') :
    Follows regexMatch pingPong r (visits ++ [v]) r' := by
  induction h with
  | nil r => exact .cons hv (.nil r')
  | cons hv₁ _ ih => exact .cons hv₁ (ih hv)

/-- **A reader has no choice.** -/
theorem Follows.unique (h : Follows regexMatch pingPong r visits r')
    (h₁ : Follows regexMatch pingPong r visits r₁) : r' = r₁ := by
  induction h with
  | nil r => cases h₁; rfl
  | cons hv _ ih =>
    cases h₁ with
    | cons hv₁ hrest =>
      obtain ⟨rfl, -⟩ := Prod.mk.inj (Loop.Returns.unique hv hv₁)
      exact ih hrest

/-! ## What becomes of the stream -/

/-- What a reader has received. -/
def stream (r : Reader) : Bytes := r.taken.flatMap Part.bytes ++ r.buffer

/-- A part goes from the buffer to what was taken. -/
theorem stream_taken {part : Part} (htaken : r'.taken = r.taken ++ [part])
    (hbuffer : r.buffer = part.bytes ++ r'.buffer) : r'.stream = r.stream := by
  unfold stream
  rw [htaken, hbuffer, List.flatMap_append, List.flatMap_singleton, List.append_assoc]

/-- A `read(2)` takes what it gives off the stream. -/
theorem read_split (a : Answer) (unread : Bytes) (len : Nat) :
    ∃ bytes, bytes.length ≤ len ∧ unread = bytes ++ (a.read unread len).2 ∧
      ((a.read unread len).1 = .data bytes ∨
        bytes = [] ∧ ∃ e, (a.read unread len).1 = .error e) := by
  have hnone : ([] : Bytes).length ≤ len := Nat.zero_le len
  unfold Answer.read
  split
  · exact ⟨[], hnone, rfl, .inl rfl⟩
  · cases a with
    | ready k =>
      dsimp only
      split
      · exact ⟨[], hnone, rfl, .inr ⟨rfl, _, rfl⟩⟩
      -- no more than is asked for
      · refine ⟨_, ?_, (List.take_append_drop _ _).symm, .inl rfl⟩
        exact (List.length_take_le _ _).trans (Nat.min_le_right _ _)
    | fail e => exact ⟨[], hnone, rfl, .inr ⟨rfl, e, rfl⟩⟩
    | closed => exact ⟨[], hnone, rfl, .inl rfl⟩

/-- The reader and the socket after a step. -/
def after : Loop.Step Turn (Reader × Socket) → Reader × Socket
  | .next t => (t.reader, t.socket)
  | .done p => p

private theorem hear_data (r : Reader) (s : Socket) (bytes : Bytes) :
    (after (r.hear s (.data bytes))).1.stream = r.stream ++ bytes ∧
      (after (r.hear s (.data bytes))).2 = s := by
  unfold hear
  dsimp only
  split
  · rename_i hnil
    rw [hnil, List.append_nil]
    exact ⟨rfl, rfl⟩
  · exact ⟨(List.append_assoc _ _ _).symm, rfl⟩

private theorem hear_error (r : Reader) (s : Socket) (e : Errno) :
    (after (r.hear s (.error e))).1 = r ∧ (after (r.hear s (.error e))).2 = s := by
  cases e with
  | EAGAIN =>
    unfold hear
    dsimp only
    split
    · exact ⟨rfl, rfl⟩
    · split <;> exact ⟨rfl, rfl⟩
  | EINTR => exact ⟨rfl, rfl⟩
  | other => exact ⟨rfl, rfl⟩

private theorem push_stream {s : Socket} {part : Part} {rest : Bytes}
    {step : Loop.Step Turn (Reader × Socket)} (hbuffer : r.buffer = part.bytes ++ rest)
    (h : r.push s part rest = some step) :
    (after step).1.stream = r.stream ∧ (after step).2 = s := by
  obtain ⟨parser, -, rfl⟩ := Option.map_eq_some_iff.mp h
  exact ⟨stream_taken rfl hbuffer, rfl⟩

private theorem frame_stream (r : Reader) (listens : Bool) (payload : Bytes)
    (f : WebsocketConnection.RawFrame) :
    (r.frame pingPong listens payload f).stream = r.stream := by
  unfold frame
  dsimp only
  split
  · rfl
  split
  · rfl
  split <;> rfl

private theorem take_stream {s : Socket} {step : Loop.Step Turn (Reader × Socket)}
    (h : r.take pingPong s = some step) :
    (after step).1.stream = r.stream ∧ (after step).2 = s := by
  unfold take at h
  split at h
  · split at h
    · cases h
    · cases h
      -- all of the buffer goes with the frame
      refine ⟨(frame_stream _ _ _ _).trans (stream_taken rfl ?_), rfl⟩
      exact (List.append_nil _).symm
  · split at h
    · rename_i hcut
      exact push_stream (Lines.eq_append_of_cut hcut) h
    · split at h
      · cases h
        exact ⟨rfl, rfl⟩
      · exact push_stream (r := { r with body := r.buffer.take 1024 })
          (List.take_append_drop 1024 r.buffer).symm h

private theorem give_stream {table : HandlerTable σ} {user : σ}
    (h : r.give regexMatch table user = some r') : r'.stream = r.stream := by
  unfold give at h
  split at h
  · cases h
  · cases h; rfl
  · split at h
    · obtain ⟨key, -, rfl⟩ := Option.map_eq_some_iff.mp h
      rfl
    · split at h
      · cases h
      · cases h; rfl
      · cases h; rfl

/-- What a step takes off the socket, the reader has received. -/
private theorem turn_stream {table : HandlerTable σ} {user : σ} {t : Turn}
    {step : Loop.Step Turn (Reader × Socket)}
    (h : turn regexMatch pingPong table user t = some step) :
    ∃ bytes, t.socket.unread = bytes ++ (after step).2.unread ∧
      (after step).1.stream = t.reader.stream ++ bytes := by
  obtain ⟨r, s, phase⟩ := t
  cases phase with
  | reading =>
    unfold turn at h
    dsimp only at h
    split at h
    · cases h
    · rename_i answer answers _
      cases h
      -- only a `read(2)` takes anything off the socket
      obtain ⟨bytes, -, hbytes, hresult⟩ :=
        read_split answer s.unread (SMALL_MEMORY - r.buffer.length)
      refine ⟨bytes, ?_⟩
      rcases hresult with hdata | ⟨rfl, e, herror⟩
      · rw [hdata]
        obtain ⟨hstream, hsocket⟩ := hear_data r ⟨_, answers⟩ bytes
        exact ⟨by rw [hsocket]; exact hbytes, hstream⟩
      · rw [herror]
        obtain ⟨hreader, hsocket⟩ := hear_error r ⟨_, answers⟩ e
        exact ⟨by rw [hsocket]; exact hbytes, by rw [hreader, List.append_nil]⟩
  | taking =>
    obtain ⟨hstream, hsocket⟩ := take_stream h
    exact ⟨[], by rw [hsocket]; rfl, by rw [hstream, List.append_nil]⟩
  | giving =>
    obtain ⟨r', hr', rfl⟩ := Option.map_eq_some_iff.mp h
    exact ⟨[], rfl, by rw [List.append_nil]; exact give_stream hr'⟩

/-- **One event.** -/
theorem Attends.conserves (h : Attends regexMatch pingPong v r r') :
    v.before.unread = v.received ++ v.after.unread ∧ r'.stream = r.stream ++ v.received := by
  have hend : ∃ bytes, v.before.unread = bytes ++ v.after.unread ∧
      r'.stream = r.stream ++ bytes := by
    -- what was read so far goes on to be what the reader has received
    have hstep : ∀ {t step}, (∃ bytes, v.before.unread = bytes ++ t.socket.unread ∧
          t.reader.stream = r.stream ++ bytes) →
        turn regexMatch pingPong v.table v.user t = some step →
        ∃ bytes, v.before.unread = bytes ++ (after step).2.unread ∧
          (after step).1.stream = r.stream ++ bytes := by
      rintro t step ⟨bytes, hbytes, hstream⟩ hturn
      obtain ⟨more, hmore, hstream'⟩ := turn_stream hturn
      refine ⟨bytes ++ more, ?_, ?_⟩
      · rw [hbytes, hmore, List.append_assoc]
      · rw [hstream', hstream, List.append_assoc]
    exact Loop.Returns.invariant
      (I := fun t => ∃ bytes, v.before.unread = bytes ++ t.socket.unread ∧
        t.reader.stream = r.stream ++ bytes)
      (Q := fun p => ∃ bytes, v.before.unread = bytes ++ p.2.unread ∧
        p.1.stream = r.stream ++ bytes)
      (fun _ _ ht hturn => hstep ht hturn) (fun _ _ ht hturn => hstep ht hturn)
      ⟨[], rfl, (List.append_nil _).symm⟩ h
  obtain ⟨bytes, hbytes, hstream⟩ := hend
  -- and at the end it is all that is missing from the socket
  have hreceived : v.received = bytes := by
    unfold Visit.received
    rw [hbytes, List.length_append, Nat.add_sub_cancel_right, List.take_left]
  rw [hreceived]
  exact ⟨hbytes, hstream⟩

/-- **No byte is lost, or read twice.** -/
theorem Follows.conserves (h : Follows regexMatch pingPong r visits r') :
    r'.stream = r.stream ++ visits.flatMap Visit.received := by
  induction h with
  | nil r => exact (List.append_nil _).symm
  | cons hv _ ih => rw [ih, hv.conserves.2, List.flatMap_cons, List.append_assoc]

end Reader

namespace Server

open Connection

variable {σ : Type} {regexMatch : Bytes → Bytes → Option Bool} {pingPong : Bool}
  {table : HandlerTable σ} {c c' : Connection σ} {s s' : Socket} {user : σ} {r : Reader}

/-! ## The reader of a connection -/

/-- What the user is given of a stream. -/
def isGiven : Effect → Bool
  | .handler .. | .onData .. => true
  | _ => false

/-- The connection is where the reader is. -/
structure At (r : Reader) (c : Connection σ) : Prop where
  buffer : c.buffer = r.buffer
  parser : c.parser = r.parser
  body : c.partialBody = r.body
  websocket : c.wsConn.map (fun ws => (ws.onData.isSome, ws.lastPayload)) = r.websocket
  room : c.buffer.length ≤ SMALL_MEMORY

theorem At.plain (h : At r c) (hplain : c.wsConn = none) : r.websocket = none := by
  rw [← h.websocket, hplain]
  rfl

variable (regexMatch pingPong table user) in
/-- The first step of an event is a `read(2)`. -/
private theorem At.turn_reading (h : At r c) (answer : Answer) (answers : List Answer)
    (unread : Bytes) :
    Reader.turn regexMatch pingPong table user ⟨r, ⟨unread, answer :: answers⟩, .reading⟩ =
      some (r.hear ⟨(answer.read unread c.readLen).2, answers⟩
        (answer.read unread c.readLen).1) := by
  rw [readLen_of_le h.room, h.buffer]
  rfl

/-- What is read goes to the end of the buffer, in which there is room for it. -/
private theorem At.append (h : At r c) {bytes : Bytes} (hle : bytes.length ≤ c.readLen) :
    At { r with buffer := r.buffer ++ bytes } { c with buffer := c.buffer ++ bytes } where
  buffer := congrArg (· ++ bytes) h.buffer
  parser := h.parser
  body := h.body
  websocket := h.websocket
  room := by
    rw [readLen_of_le h.room] at hle
    have hroom := h.room
    show (c.buffer ++ bytes).length ≤ SMALL_MEMORY
    rw [List.length_append]
    omega

/-- What the connection and its reader make of a `read(2)`. -/
private inductive Heard (r : Reader) (c : Connection σ) (s : Socket) (result : ReadResult) :
    Prop where
  /-- There is an error, or the peer has closed the connection, or there is no room. -/
  | failed (hread : c.read result = (-1, c)) (hhear : r.hear s result = .done (r, s))
  /-- The socket is drained. -/
  | drained (hread : c.read result = (0, c))
    (hhear : r.hear s result =
      if r.websocket.isSome then .next ⟨r, s, .taking⟩
      else if Stops r.parser then .next ⟨r, s, .giving⟩
      else .done (r, s))
  /-- Something was read, or the call was interrupted. -/
  | more {r₁ : Reader} {c₁ : Connection σ} (hread : c.read result = (1, c₁))
    (hhear : r.hear s result = .next ⟨r₁, s, .taking⟩) (hat : At r₁ c₁)
    (hsame : c₁.wsConn = c.wsConn) (hgiven : r₁.given = r.given)

private theorem At.hear (h : At r c) (answer : Answer) (unread : Bytes) (s : Socket) :
    Heard r c s (answer.read unread c.readLen).1 := by
  obtain ⟨bytes, hle, -, hresult⟩ := Reader.read_split answer unread c.readLen
  rcases hresult with hdata | ⟨-, e, herror⟩
  · rw [hdata]
    by_cases hnil : bytes = []
    · subst hnil
      exact .failed rfl rfl
    · exact .more (if_pos (List.length_pos_iff.mpr hnil)) (if_neg hnil) (h.append hle) rfl rfl
  · rw [herror]
    cases e with
    | EAGAIN => exact .drained rfl rfl
    -- nothing is new in the buffer, but it is looked at again
    | EINTR => exact .more rfl rfl h rfl rfl
    | other => exact .failed rfl rfl

/-! ## `ProcessDataIn` -/

variable (regexMatch pingPong table user) in
/-- A chunk that `ProcessDataIn` takes out of the buffer is the next part for the reader. -/
private theorem At.push (h : At r c) (hplain : c.wsConn = none) {chunk rest pb : Bytes}
    {p : HttpHeaderParser} (htakes : c.Takes chunk rest pb)
    (hp : c.parser.pushLine chunk = some p) (s : Socket) :
    ∃ r', Reader.turn regexMatch pingPong table user ⟨r, s, .taking⟩ =
        some (.next ⟨r', s, if Stops p then .giving else .taking⟩) ∧
      At r' (c.afterPush rest pb p) ∧ r'.given = r.given := by
  have hnone := h.plain hplain
  have hroom : rest.length ≤ SMALL_MEMORY :=
    Nat.le_trans (Nat.le_of_lt htakes.length_rest_lt) h.room
  cases htakes with
  | line hcut =>
    rw [h.buffer] at hcut
    rw [h.parser] at hp
    refine ⟨{ r with buffer := rest, parser := p, taken := r.taken ++ [.line chunk] }, ?_,
      ⟨rfl, rfl, h.body, h.websocket, hroom⟩, rfl⟩
    simp only [Reader.turn, Reader.take, hnone, hcut, Reader.push, Part.bytes, hp, Option.map_some]
  -- in state `Body` the buffer has no line end, and its first 1024 bytes are kept
  | slice hcut hne hbody =>
    have hbuffer := h.buffer
    rw [hbuffer] at hcut hne hp
    rw [h.parser] at hbody hp
    refine ⟨{ r with
        buffer := r.buffer.drop 1024
        parser := p
        body := r.buffer.take 1024
        taken := r.taken ++ [.slice (r.buffer.take 1024)] }, ?_,
      ⟨congrArg _ hbuffer, rfl, congrArg _ hbuffer, h.websocket, hroom⟩, rfl⟩
    simp only [Reader.turn, Reader.take, hnone, hcut, hne, hbody, Reader.push, Part.bytes, hp,
      Option.map_some, ne_eq, not_true_eq_false, or_self, if_false]

variable (regexMatch pingPong table user) in
/-- When there is nothing to take, the reader goes on reading. -/
private theorem At.exhausted (h : At r c) (hplain : c.wsConn = none) (hex : c.Exhausted)
    (s : Socket) : Reader.turn regexMatch pingPong table user ⟨r, s, .taking⟩ =
      some (.next ⟨r, s, .reading⟩) := by
  obtain ⟨hcut, hempty⟩ := hex
  rw [h.buffer] at hcut hempty
  rw [h.parser] at hempty
  simp only [Reader.turn, Reader.take, h.plain hplain, hcut, if_pos hempty]

/-- Where the reader is when the loop over the lines is left. -/
private def LeftAs (given : List Effect) (s : Socket) : Drained σ → Reader.Turn → Prop
  | .exhausted c _, t => ∃ r, t = ⟨r, s, .reading⟩ ∧ At r c ∧ c.wsConn = none ∧ r.given = given
  | .returned ret c _, t => ∃ r, t = ⟨r, s, .giving⟩ ∧ At r c ∧ c.wsConn = none ∧
      r.given = given ∧ (ret = 0 ∨ ret = 1) ∧ ret = stateRet c.parser.state

variable (regexMatch pingPong table user) in
/-- The loop over the lines. -/
private theorem At.drain (h : At r c) (hplain : c.wsConn = none) {log : List Pushed}
    {d : Drained σ} (hd : c.drain log = some d) (s : Socket) :
    ∃ t, Loop.Reaches (Reader.turn regexMatch pingPong table user) ⟨r, s, .taking⟩ t ∧
      LeftAs r.given s d t := by
  refine Loop.Returns.inside (R := fun cl t => ∃ r', t = ⟨r', s, .taking⟩ ∧ At r' cl.1 ∧
    cl.1.wsConn = none ∧ r'.given = r.given) ?_ ?_ ⟨r, rfl, h, hplain, rfl⟩
    (drain_eq_some_iff.mp hd)
  -- the loop goes on with another chunk
  · rintro ⟨c, log⟩ s' _ ⟨r₁, rfl, hat, hplain, hgiven⟩ hb
    cases drainBody_round hb with
    | push htakes hp hgo =>
      obtain ⟨r', hturn, hat', hgiven'⟩ :=
        hat.push regexMatch pingPong table user hplain htakes hp s
      rw [if_neg hgo] at hturn
      exact ⟨_, .single hturn, r', rfl, hat', hplain, hgiven'.trans hgiven⟩
  -- the loop is left, to read again or because the parser has a request
  · rintro ⟨c, log⟩ d _ ⟨r₁, rfl, hat, hplain, hgiven⟩ hb
    cases drainBody_round hb with
    | exhausted hex =>
      exact ⟨_, .single (hat.exhausted regexMatch pingPong table user hplain hex s), r₁, rfl, hat,
        hplain, hgiven⟩
    | stop htakes hp hstop =>
      obtain ⟨r', hturn, hat', hgiven'⟩ :=
        hat.push regexMatch pingPong table user hplain htakes hp s
      rw [if_pos hstop] at hturn
      exact ⟨_, .single hturn, r', rfl, hat', hplain, hgiven'.trans hgiven,
        stateRet_of_stops hstop, rfl⟩

variable (regexMatch pingPong table user) in
/-- Where the reader is when `ProcessDataIn` returns `ret`: it is about to give the request to the
    user if that is 0 or 1, and otherwise done with the event. -/
private def ReturnsAs (t : Reader.Turn) (ret : Int) (c : Connection σ) (s : Socket) : Prop :=
  ∃ r, At r c ∧ c.wsConn = none ∧ r.given = t.reader.given ∧
    ((ret = 0 ∨ ret = 1) ∧ ret = stateRet c.parser.state ∧
        Loop.Reaches (Reader.turn regexMatch pingPong table user) t ⟨r, s, .giving⟩ ∨
      ¬ (ret = 0 ∨ ret = 1) ∧
        Loop.Returns (Reader.turn regexMatch pingPong table user) t (r, s))

private theorem ReturnsAs.of_reaches {t t₁ : Reader.Turn} {ret : Int}
    (hreaches : Loop.Reaches (Reader.turn regexMatch pingPong table user) t t₁)
    (hgiven : t₁.reader.given = t.reader.given)
    (h : ReturnsAs regexMatch pingPong table user t₁ ret c s) :
    ReturnsAs regexMatch pingPong table user t ret c s := by
  obtain ⟨r, hat, hplain, hgiven', hend⟩ := h
  refine ⟨r, hat, hplain, hgiven'.trans hgiven, hend.imp ?_ ?_⟩
  · exact fun ⟨hret, hstate, hrest⟩ => ⟨hret, hstate, hreaches.trans hrest⟩
  · exact fun ⟨hret, hrest⟩ => ⟨hret, hrest.of_reaches hreaches⟩

variable (regexMatch pingPong table user) in
/-- **A call of `ProcessDataIn`.** -/
private theorem At.processDataInFrom (h : At r c) (hplain : c.wsConn = none)
    {answers : List Answer} {unread : Bytes} {log log' : List Pushed} {ret : Int}
    (hcall : processDataInFrom answers c unread log = some (.returned ret c' s' log')) :
    ReturnsAs regexMatch pingPong table user ⟨r, ⟨unread, answers⟩, .reading⟩ ret c' s' := by
  induction answers generalizing r c unread log with
  | nil => cases hcall
  | cons answer answers ih =>
    have hturn := h.turn_reading regexMatch pingPong table user answer answers unread
    have hheard := h.hear answer unread ⟨(answer.read unread c.readLen).2, answers⟩
    simp only [Native.Connection.processDataInFrom] at hcall
    generalize answer.read unread c.readLen = result at hturn hheard hcall
    obtain ⟨result, unread'⟩ := result
    dsimp only at hturn hheard hcall
    cases hheard with
    | failed hread hhear =>
      rw [hhear] at hturn
      simp only [hread, if_true] at hcall
      cases hcall
      exact ⟨r, h, hplain, rfl, .inr ⟨by decide, .of_done hturn⟩⟩
    | drained hread hhear =>
      -- there may be a request from an earlier event
      simp only [h.plain hplain, Option.isSome_none, Bool.false_eq_true, if_false] at hhear
      rw [hhear] at hturn
      simp only [hread, show ¬ (0 : Int) = -1 from by decide, if_false, if_true] at hcall
      cases hcall
      by_cases hstops : Stops r.parser
      · rw [if_pos hstops] at hturn
        refine ⟨r, h, hplain, rfl, .inl ⟨?_, rfl, .single hturn⟩⟩
        rw [h.parser]
        exact stateRet_of_stops hstops
      · rw [if_neg hstops] at hturn
        refine ⟨r, h, hplain, rfl, .inr ⟨?_, .of_done hturn⟩⟩
        rw [h.parser, stateRet_of_not_stops hstops]
        decide
    | @more r₁ c₁ hread hhear hat hsame hgiven =>
      -- the loop over the lines, and the rounds of the outer loop after it
      rw [hhear] at hturn
      simp only [hread, show ¬ (1 : Int) = -1 from by decide, show ¬ (1 : Int) = 0 from by decide,
        if_false] at hcall
      cases hd : c₁.drain log with
      | none => simp only [hd] at hcall; cases hcall
      | some d =>
        obtain ⟨t, hreaches, hleft⟩ :=
          hat.drain regexMatch pingPong table user (hsame.trans hplain) hd ⟨unread', answers⟩
        have hhead := Loop.Reaches.head hturn hreaches
        cases d with
        | returned ret₂ c₂ log₂ =>
          simp only [hd] at hcall
          cases hcall
          obtain ⟨r', rfl, hat', hplain', hgiven', hret, hstate⟩ := hleft
          exact ⟨r', hat', hplain', hgiven'.trans hgiven, .inl ⟨hret, hstate, hhead⟩⟩
        | exhausted c₂ log₂ =>
          simp only [hd] at hcall
          obtain ⟨r₂, rfl, hat₂, hplain₂, hgiven₂⟩ := hleft
          exact (ih hat₂ hplain₂ hcall).of_reaches hhead (hgiven₂.trans hgiven)

/-! ## Frames -/

/-- A hook gets nothing of the stream. -/
private theorem given_callHook (hook : Option (WsHook σ)) (uri : Bytes) (effect : Effect)
    (h : isGiven effect = false) (n : Int) (user : σ) :
    (callHook hook uri effect n user).2.2.filter isGiven = [] := by
  cases hook with
  | none => rfl
  | some hook => exact List.filter_cons_of_neg (by rw [h]; decide)

/-- What the user is given by a `Read`. -/
private theorem given_afterRead (ws : WebsocketConnection σ)
    (o : WebsocketConnection.ReadOutcome σ) :
    (afterRead ws o).effects.filter isGiven =
      (o.call.map fun call => Effect.onData call.1 call.2).toList := by
  have hcall : ((o.call.map fun call => Effect.onData call.1 call.2).toList).filter isGiven =
      (o.call.map fun call => Effect.onData call.1 call.2).toList := by
    cases o.call <;> rfl
  have hwrites : (o.writes.map Effect.write).filter isGiven = [] := by
    simp [List.filter_eq_nil_iff, isGiven]
  unfold afterRead
  dsimp only
  split
  · -- the close hook comes behind what was given
    have hhook := given_callHook ws.willCloseHook [] (.wsWillCloseHook []) rfl
    simp only [List.filter_append, hcall, hwrites, hhook, List.append_nil]
    exact List.append_nil _
  · rw [List.filter_append, hcall, hwrites, List.append_nil]

variable (pingPong) in
/-- One frame. -/
private theorem At.handleFrame (h : At r c) (ws : WebsocketConnection σ) (user : σ)
    (f : WebsocketConnection.RawFrame) :
    At (r.frame pingPong ws.onData.isSome ws.lastPayload f)
        (ws.handleFrame pingPong c user f).conn ∧
      (r.frame pingPong ws.onData.isSome ws.lastPayload f).given = r.given ++
        ((ws.handleFrame pingPong c user f).call.map fun call =>
          Effect.onData call.1 call.2).toList := by
  unfold WebsocketConnection.handleFrame Reader.frame
  dsimp only
  by_cases hclose : f.opcode = WsFrameType.kTypeClose.toOpcode
  · rw [if_pos hclose, if_pos hclose]
    exact ⟨⟨h.buffer, h.parser, h.body, rfl, h.room⟩, (List.append_nil _).symm⟩
  rw [if_neg hclose, if_neg hclose]
  by_cases hping : pingPong = true ∧ f.opcode = WsFrameType.kTypePing.toOpcode
  · rw [if_pos hping, if_pos ⟨hping.1, .inl hping.2⟩]
    exact ⟨⟨h.buffer, h.parser, h.body, rfl, h.room⟩, (List.append_nil _).symm⟩
  rw [if_neg hping]
  by_cases hpong : pingPong = true ∧ f.opcode = WsFrameType.kTypePong.toOpcode
  · rw [if_pos hpong, if_pos ⟨hpong.1, .inr hpong.2⟩]
    exact ⟨⟨h.buffer, h.parser, h.body, rfl, h.room⟩, (List.append_nil _).symm⟩
  have hdata : ¬ (pingPong = true ∧ (f.opcode = WsFrameType.kTypePing.toOpcode ∨
      f.opcode = WsFrameType.kTypePong.toOpcode)) := by
    rintro ⟨hpp, htype | htype⟩
    · exact hping ⟨hpp, htype⟩
    · exact hpong ⟨hpp, htype⟩
  rw [if_neg hpong, if_neg hdata]
  cases hfin : f.fin with
  | false => exact ⟨⟨h.buffer, h.parser, h.body, rfl, h.room⟩, (List.append_nil _).symm⟩
  | true =>
    -- the message is complete, and given to the user if there is a handler for it
    cases honData : ws.onData with
    | none => exact ⟨⟨h.buffer, h.parser, h.body, by simp, h.room⟩, rfl⟩
    | some onData => exact ⟨⟨h.buffer, h.parser, h.body, by simp, h.room⟩, rfl⟩

variable (regexMatch pingPong table user) in
/-- What the reader takes when there is a frame in front of its buffer. -/
private theorem At.turn_frame (h : At r c) {ws : WebsocketConnection σ} (hws : c.wsConn = some ws)
    {f : WebsocketConnection.RawFrame} (hframe : WebsocketConnection.readFrame c.buffer = .ok f)
    (s : Socket) :
    ∃ r', Reader.turn regexMatch pingPong table user ⟨r, s, .taking⟩ = some (.done (r', s)) ∧
      At r' (ws.handleFrame pingPong { c with buffer := [] } user f).conn ∧
      r'.given = r.given ++
        ((ws.handleFrame pingPong { c with buffer := [] } user f).call.map fun call =>
          Effect.onData call.1 call.2).toList := by
  have hempty : At { r with buffer := [], taken := r.taken ++ [.frame r.buffer] }
      { c with buffer := [] } :=
    ⟨rfl, h.parser, h.body, h.websocket, Nat.zero_le _⟩
  obtain ⟨hat, hgiven⟩ := hempty.handleFrame pingPong ws user f
  refine ⟨_, ?_, hat, hgiven⟩
  rw [h.buffer] at hframe
  simp only [Reader.turn, Reader.take, ← h.websocket, hws, Option.map_some, hframe]

/-- **A `Read` of a WebSocket connection.** -/
private theorem At.websocketRead (h : At r c) {ws : WebsocketConnection σ}
    (hws : c.wsConn = some ws) {answer : Answer} {answers : List Answer} {unread : Bytes}
    {o : WebsocketConnection.ReadOutcome σ}
    (hread : ws.read pingPong c (answer.read unread c.readLen).1 user = .ok o) :
    ∃ r', Loop.Returns (Reader.turn regexMatch pingPong table user)
        ⟨r, ⟨unread, answer :: answers⟩, .reading⟩
        (r', ⟨(answer.read unread c.readLen).2, answers⟩) ∧
      At r' o.conn ∧ r'.given = r.given ++ (afterRead ws o).effects.filter isGiven := by
  rw [given_afterRead]
  have hturn := h.turn_reading regexMatch pingPong table user answer answers unread
  have hwebsocket : r.websocket.isSome = true := by
    rw [← h.websocket, hws]
    rfl
  have hheard := h.hear answer unread ⟨(answer.read unread c.readLen).2, answers⟩
  generalize answer.read unread c.readLen = result at hturn hheard hread
  obtain ⟨result, unread'⟩ := result
  dsimp only at hturn hheard hread ⊢
  unfold WebsocketConnection.read at hread
  -- a frame is read, whether there was anything on the socket or not
  have hinner : ∀ {r₁ : Reader} {ret : Int} {c₁ : Connection σ}, c.read result = (ret, c₁) →
      ¬ ret < 0 → r.hear ⟨unread', answers⟩ result = .next ⟨r₁, ⟨unread', answers⟩, .taking⟩ →
      At r₁ c₁ → c₁.wsConn = c.wsConn → r₁.given = r.given →
      ∃ r', Loop.Returns (Reader.turn regexMatch pingPong table user)
          ⟨r, ⟨unread, answer :: answers⟩, .reading⟩ (r', ⟨unread', answers⟩) ∧
        At r' o.conn ∧
        r'.given = r.given ++ (o.call.map fun call => Effect.onData call.1 call.2).toList := by
    intro r₁ ret c₁ hconn hret hhear hat hsame hgiven
    rw [hhear] at hturn
    rw [hconn] at hread
    dsimp only at hread
    rw [if_neg hret] at hread
    cases hframe : WebsocketConnection.readFrame c₁.buffer with
    | error f => rw [hframe] at hread; cases hread
    | ok f =>
      rw [hframe] at hread
      cases hread
      obtain ⟨r', hdone, hat', hgiven'⟩ :=
        hat.turn_frame regexMatch pingPong table user (hsame.trans hws) hframe ⟨unread', answers⟩
      exact ⟨r', .of_next hturn (.of_done hdone), hat', hgiven ▸ hgiven'⟩
  cases hheard with
  | failed hconn hhear =>
    rw [hconn] at hread
    cases hread
    exact ⟨r, .of_done (hturn.trans (congrArg some hhear)), h, (List.append_nil _).symm⟩
  | drained hconn hhear =>
    rw [if_pos hwebsocket] at hhear
    exact hinner hconn (by decide) hhear h rfl rfl
  | more hconn hhear hat hsame hgiven =>
    exact hinner hconn (by decide) hhear hat hsame hgiven

/-! ## Requests -/

/-- A response is not given to the user. -/
private theorem given_connWrite (c : Connection σ) (effect : Effect) (h : isGiven effect = false) :
    (connWrite c effect).filter isGiven = [] := by
  unfold connWrite
  split
  · rfl
  · exact List.filter_cons_of_neg (by rw [h]; decide)

/-- The user is given nothing by an upgrade. -/
private theorem given_upgrade (handlers : RequestHandler σ) (ws : WebsocketConnection σ)
    (c : Connection σ) (user : σ) : (upgrade handlers ws c user).effects.filter isGiven = [] := by
  have hconnect := given_callHook handlers.wsConnectHook c.parser.uri
    (.wsConnectHook c.parser.uri) rfl
  have hready := given_callHook handlers.wsReadyHook c.parser.uri (.wsReadyHook c.parser.uri) rfl
  have hrsp := given_connWrite c (.switchProtocols c.parser.version ws.wsKey) rfl
  have hclosed : [Effect.close].filter isGiven = [] := rfl
  unfold upgrade
  dsimp only
  split
  -- a hook that refuses closes the connection
  · rw [List.filter_append, hconnect, hclosed]
    rfl
  · split
    · simp only [List.filter_append, hconnect, hrsp, hready, hclosed, List.append_nil]
    · simp only [List.filter_append, hconnect, hrsp, hready, List.append_nil]

/-- `ShouldUpgradeWebsocket` -/
private theorem At.asksUpgrade (h : At r c) (hplain : c.wsConn = none) :
    r.asksUpgrade = c.shouldUpgradeWebsocket := by
  unfold Reader.asksUpgrade shouldUpgradeWebsocket
  rw [hplain, h.parser]
  rfl

/-- **The dispatch of a request.** -/
private theorem At.give (h : At r c) (hplain : c.wsConn = none) {ret : Int}
    (hstate : ret = stateRet c.parser.state) {served : Served σ}
    (hr : dispatch regexMatch table ret c user = .ok served) :
    ∃ r', r.give regexMatch table user = some r' ∧
      At r' (connAfterDispatch regexMatch table ret c user) ∧
      r'.given = r.given ++ served.effects.filter isGiven := by
  have hasks := h.asksUpgrade hplain
  unfold connAfterDispatch Reader.give
  rw [hasks, ← h.parser]
  cases dispatch_answered hr with
  | notFound hfind =>
    have hrsp := given_connWrite c (.respond 404 c.parser.version) rfl
    simp only [hfind, List.filter_append, hrsp]
    exact ⟨r, rfl, h, (List.append_nil _).symm⟩
  | @upgraded handlers hfind hup ws c' hws =>
    -- the upgrade makes a connection with an empty payload
    obtain ⟨key, hkey, rfl⟩ := upgradeToWebsocket_new hplain hws
    simp only [hfind, hup, if_true, hws, given_upgrade, hkey, Option.map_some]
    rw [upgradeToWebsocket_eq hws]
    exact ⟨_, rfl, ⟨h.buffer, rfl, h.body, rfl, h.room⟩, (List.append_nil _).symm⟩
  | @called handlers hfind hup handler hat =>
    simp only [hfind, hup, Bool.false_eq_true, if_false, hat]
    cases handler with
    | none => exact ⟨r, rfl, h, (List.append_nil _).symm⟩
    | some handler =>
      have hfinal : decide (ret = 1) = decide (c.parser.state = .Done) := by
        rw [hstate]
        cases c.parser.state <;> decide
      rw [hfinal, ← h.body]
      refine ⟨_, rfl, ⟨h.buffer, rfl, rfl, h.websocket, h.room⟩, ?_⟩
      unfold callHandler
      dsimp only
      split <;> rfl

/-! ## Events -/

/-- **One event.** -/
theorem At.event (h : At r c) {served : Served σ}
    (hserved : pollEvent regexMatch pingPong table c s user = some (.served served s')) :
    ∃ r', Reader.Attends regexMatch pingPong ⟨table, user, s, s'⟩ r r' ∧
      At r' (connAfter regexMatch pingPong table c s user) ∧
      r'.given = r.given ++ served.effects.filter isGiven := by
  unfold connAfter Reader.Attends
  cases pollEvent_served hserved with
  | @websocket ws hws answer answers hanswers o hread =>
    simp only [hws, hanswers, hread]
    obtain ⟨unread, answers'⟩ := s
    cases hanswers
    exact h.websocketRead hws hread
  | failed hplain hcall =>
    have hret : ¬ ((-2 : Int) = 1 ∨ (-2 : Int) = 0) := by omega
    simp only [hplain, hcall, if_neg hret]
    obtain ⟨r', hat, -, hgiven, hend⟩ :=
      h.processDataInFrom regexMatch pingPong table user hplain hcall
    rcases hend with ⟨hret, -⟩ | ⟨-, hreturns⟩
    · omega
    · exact ⟨r', hreturns, hat, hgiven.trans (List.append_nil _).symm⟩
  | @dispatched ret c₁ _ hdisp _ hr =>
    obtain ⟨log, hcall⟩ := hdisp.call
    simp only [hdisp.plain, hcall, if_pos hdisp.ret_eq.symm]
    obtain ⟨r₁, hat₁, hplain₁, hgiven₁, hend⟩ :=
      h.processDataInFrom regexMatch pingPong table user hdisp.plain hcall
    rcases hend with ⟨-, hstate, hreaches⟩ | ⟨hret, -⟩
    · -- the reader must give the request to the user now
      obtain ⟨r', hgive, hat', hgiven'⟩ := hat₁.give hplain₁ hstate hr
      refine ⟨r', .of_reaches hreaches (.of_done ?_), hat', ?_⟩
      · simp only [Reader.turn, hgive, Option.map_some]
      · rw [hgiven', hgiven₁]
    · exact absurd hdisp.ret_eq hret
  | incomplete hplain hret hcall =>
    simp only [hplain, hcall, if_neg (not_or.mpr hret.symm)]
    obtain ⟨r', hat, -, hgiven, hend⟩ :=
      h.processDataInFrom regexMatch pingPong table user hplain hcall
    rcases hend with ⟨hdone, -⟩ | ⟨-, hreturns⟩
    · exact absurd hdone (not_or.mpr hret)
    · exact ⟨r', hreturns, hat, hgiven.trans (List.append_nil _).symm⟩

/-! ## The events of a run -/

section Visits

variable (regexMatch : (pattern text : Bytes) → Option Bool) (pingPong : Bool)

/-- An event of a connection, with what its reader gets to know of it. -/
def visitOf (s : ServerState σ) : PollEvent σ → List (Nat × Visit σ)
  | .server _ => []
  | .client e =>
    match s.client? e.id with
    | none => []
    | some c =>
      if e.epollin then
        match pollEvent regexMatch pingPong s.requestHandlers c.conn e.socket s.user with
        | some (.served _ socket) => [(e.id, ⟨s.requestHandlers, s.user, e.socket, socket⟩)]
        | _ => []
      else []

/-- The events of a call. -/
def visitsOfCall (s : ServerState σ) (call : Call σ) : List (Nat × Visit σ) :=
  Runs.project (fun s e => (pollOne regexMatch pingPong s e).toOption) (visitOf regexMatch pingPong)
    s call.events

/-- The events of a run. -/
def visitsOf (s : ServerState σ) (calls : List (Call σ)) : List (Nat × Visit σ) :=
  Runs.project (step regexMatch pingPong) (visitsOfCall regexMatch pingPong) s calls

end Visits

/-- The events of one connection among them. -/
def visitsTo (id : Nat) (visits : List (Nat × Visit σ)) : List (Visit σ) :=
  (visits.filter fun visit => visit.1 = id).map Prod.snd

theorem visitsTo_append (id : Nat) (visits more : List (Nat × Visit σ)) :
    visitsTo id (visits ++ more) = visitsTo id visits ++ visitsTo id more := by
  unfold visitsTo
  rw [List.filter_append, List.map_append]

/-- An event of another connection is none of this one. -/
private theorem visitsTo_other {s : ServerState σ} {e : PollEvent σ} {id : Nat}
    (hother : ∀ e', e = .client e' → e'.id = id → e'.epollin = false) :
    visitsTo id (visitOf regexMatch pingPong s e) = [] := by
  cases e with
  | server answer => rfl
  | client e =>
    unfold visitOf
    dsimp only
    split
    · rfl
    · split
      · rename_i hin
        split
        -- an event of this id is without input, so it is no visit
        · have hid : e.id ≠ id := by
            intro heq
            rw [hother e rfl heq] at hin
            cases hin
          simp [visitsTo, hid]
        · rfl
      · rfl

private theorem visitsTo_served {s : ServerState σ} {e : ClientEvent σ} {c : Client σ}
    (hc : s.client? e.id = some c) (hin : e.epollin = true) {served : Served σ} {socket : Socket}
    (hserved : pollEvent regexMatch pingPong s.requestHandlers c.conn e.socket s.user =
      some (.served served socket)) :
    visitsTo e.id (visitOf regexMatch pingPong s (.client e)) =
      [⟨s.requestHandlers, s.user, e.socket, socket⟩] := by
  simp [visitOf, hc, hin, hserved, visitsTo]

/-! ## Runs -/

section Account

variable (regexMatch : (pattern text : Bytes) → Option Bool) (pingPong : Bool)

/-- A new reader has come through the events, and is where the connection is. -/
def ReadsAs (conn : Option (Connection σ)) (effects : List Effect) (visits : List (Visit σ)) :
    Prop :=
  ∃ r, Reader.Follows regexMatch pingPong {} visits r ∧ r.given = effects.filter isGiven ∧
    ∀ c ∈ conn, At r c

/-- A connection and its reader, in a state of the server behind these events. -/
structure Received (id : Nat) (s : ServerState σ) (visits : List (Nat × Visit σ)) : Prop where
  clients : Inv s
  reader : ReadsAs regexMatch pingPong ((s.client? id).map Client.conn) (effectsOf s.log id)
    (visitsTo id visits)
  /-- Nothing has happened to a connection that is to come. -/
  unborn : s.nextId ≤ id → effectsOf s.log id = [] ∧ visitsTo id visits = []

end Account

theorem ReadsAs.free {conn : Option (Connection σ)} {effects : List Effect}
    {visits : List (Visit σ)} (h : ReadsAs regexMatch pingPong conn effects visits) :
    ReadsAs regexMatch pingPong none effects visits := by
  obtain ⟨r, hfollows, hgiven, -⟩ := h
  exact ⟨r, hfollows, hgiven, fun c hc => absurd hc (Option.not_mem_none c)⟩

/-- An event of the connection is one of the reader. -/
theorem ReadsAs.event {effects : List Effect} {visits : List (Visit σ)}
    (h : ReadsAs regexMatch pingPong (some c) effects visits) {served : Served σ}
    (hserved : pollEvent regexMatch pingPong table c s user = some (.served served s')) :
    ReadsAs regexMatch pingPong (some (connAfter regexMatch pingPong table c s user))
      (effects ++ served.effects) (visits ++ [⟨table, user, s, s'⟩]) := by
  obtain ⟨r, hfollows, hgiven, hat⟩ := h
  obtain ⟨r', hattends, hat', hgiven'⟩ := (hat c rfl).event hserved
  refine ⟨r', hfollows.concat hattends, ?_, ?_⟩
  · rw [hgiven', hgiven, List.filter_append]
  · intro c' hc'
    obtain rfl := Option.mem_some_iff.mp hc'
    exact hat'

namespace Received

variable {id : Nat} {visits : List (Nat × Visit σ)}

private theorem closeConn {s : ServerState σ} (h : Received regexMatch pingPong id s visits)
    (id' : Nat) (del : Bool) :
    Received regexMatch pingPong id (s.closeConn id' del).2 visits := by
  obtain ⟨hlog, hnext⟩ := closeConn_log s id' del
  constructor
  · exact h.clients.closeConn id' del
  · rw [hlog, client?_closeConn]
    split
    · exact h.reader.free
    · exact h.reader
  · rw [hlog, hnext]
    exact h.unborn

/-- One round of the loop. -/
private theorem pollOne {s s' : ServerState σ} (h : Received regexMatch pingPong id s visits)
    {e : PollEvent σ} (hs' : stateAfter (pollOne regexMatch pingPong s e) = some s') :
    Received regexMatch pingPong id s' (visits ++ visitOf regexMatch pingPong s e) := by
  obtain ⟨effects, hround, hlog, hnext, hunborn⟩ := pollOne_rounds h.clients id hs'
  have hreader : ReadsAs regexMatch pingPong ((s'.client? id).map Client.conn)
        (effectsOf s.log id ++ effects)
        (visitsTo id visits ++ visitsTo id (visitOf regexMatch pingPong s e)) ∧
      (s'.nextId ≤ id → visitsTo id (visitOf regexMatch pingPong s e) = []) := by
    generalize (s'.client? id).map Client.conn = conn at hround ⊢
    have hbefore := h.reader
    cases hround with
    | other hother hconn =>
      rw [visitsTo_other hother, List.append_nil, List.append_nil]
      refine ⟨?_, fun _ => rfl⟩
      rcases hconn with rfl | rfl
      · exact hbefore
      · exact hbefore.free
    | @accepted answer fd hpos hid =>
      -- a new connection has a new reader
      obtain ⟨hnil, hvisits⟩ := h.unborn (Nat.le_of_eq hid.symm)
      rw [hnil, hvisits]
      refine ⟨⟨{}, .nil {}, rfl, ?_⟩, fun _ => rfl⟩
      intro c hc
      obtain rfl := Option.mem_some_iff.mp hc
      exact ⟨rfl, rfl, rfl, rfl, Nat.zero_le _⟩
    | @served e c hc hid hin served socket hserved =>
      subst hid
      rw [hc] at hbefore
      have hafter := hbefore.event hserved
      rw [visitsTo_served hc hin hserved]
      constructor
      · unfold survivor
        split
        · exact hafter.free
        · exact hafter
      · -- the connection of the event has a number that was given
        obtain ⟨hmem, hcid⟩ := client?_eq_some hc
        have hlt := h.clients.fresh c hmem
        intro hle
        omega
  constructor
  · exact h.clients.pollOne hs'
  · rw [hlog, visitsTo_append]
    exact hreader.1
  · intro hle
    obtain ⟨hnil, hvisits⟩ := h.unborn (Nat.le_trans hnext hle)
    rw [hlog, visitsTo_append, hnil, hvisits, hunborn hle, hreader.2 hle]
    exact ⟨rfl, rfl⟩

/-- One call. -/
private theorem step {s s' : ServerState σ} (h : Received regexMatch pingPong id s visits)
    {call : Call σ} (hstep : Server.step regexMatch pingPong s call = some s') :
    Received regexMatch pingPong id s' (visits ++ visitsOfCall regexMatch pingPong s call) := by
  have hnone : ∀ {s' : ServerState σ}, Received regexMatch pingPong id s' visits →
      Received regexMatch pingPong id s' (visits ++ []) := by
    intro s' h'
    rw [List.append_nil]
    exact h'
  cases call with
  | registerRequestHandler uri handler =>
    cases hstep
    exact hnone ⟨h.clients.registerRequestHandler uri handler, h.reader, h.unborn⟩
  | closeConn id' del =>
    cases hstep
    exact hnone (h.closeConn id' del)
  | poll events =>
    cases events with
    | none =>
      -- `epoll_wait(2)` has failed
      cases hstep
      exact hnone h
    | some events =>
      exact foldlM_pollOne_project (visitOf regexMatch pingPong) (P := fun _ _ => True)
        (I := Received regexMatch pingPong id) (fun _ _ _ _ h _ hs' => h.pollOne hs') _ h
        (Runs.along_of_forall (fun _ _ _ => trivial) _) (stateAfter_of_step hstep)

end Received

/-- **Connections are readers of their own events.** In every state that a run of the server
    reaches, whatever happens to other connections in between, the events of a connection make a
    new reader come to one state, and to no other. What it has taken and what is in its buffer make
    up what these events have read from the sockets; it has given the user what the user was given
    on the connection; and the connection is where it is. -/
theorem connection_reader (user : σ) (calls : List (Call σ)) (id : Nat) :
    ∀ s, calls.foldlM (step regexMatch pingPong) { user } = some s →
      let visits := visitsTo id (visitsOf regexMatch pingPong { user } calls)
      ∃ r : Reader, Reader.Follows regexMatch pingPong {} visits r ∧
        (∀ r', Reader.Follows regexMatch pingPong {} visits r' → r' = r) ∧
        r.taken.flatMap Part.bytes ++ r.buffer = visits.flatMap Visit.received ∧
        r.given = (effectsOf s.log id).filter isGiven ∧
        ∀ c, s.client? id = some c → At r c.conn := by
  intro s hrun visits
  have hinit : Received regexMatch pingPong id ({ user } : ServerState σ) [] :=
    ⟨inv_init user, ⟨{}, .nil {}, rfl, fun c hc => absurd hc (Option.not_mem_none c)⟩,
      fun _ => ⟨rfl, rfl⟩⟩
  -- each call of the server adds its visits to those before it
  have h := Runs.project_invariant (visitsOfCall regexMatch pingPong)
    (I := Received regexMatch pingPong id) (P := fun _ _ => True)
    (fun _ _ _ _ h _ hstep => h.step hstep) [] hinit
    (Runs.along_of_forall (fun _ _ _ => trivial) _) hrun
  obtain ⟨r, hfollows, hgiven, hat⟩ := h.reader
  refine ⟨r, hfollows, fun r' h' => h'.unique hfollows, hfollows.conserves, hgiven, ?_⟩
  intro c hc
  exact hat c.conn (by rw [hc]; rfl)

/-- A request handler that takes what it is given and keeps the connection. -/
private def keepBody : RequestHandler Unit :=
  { httpHandlers := Vector.replicate _
      (some fun _ _ _ _ => { ret := 0, partialBody := [], user := () }) }

/-- The head of a request with a body of two bytes. -/
private def postHead : Bytes :=
  ascii "POST /a HTTP/1.1" ++ crlf ++ ascii "Content-Length: 2" ++ crlf ++ crlf

/-- Two connections; the head and the body of the first one's request come before and after the
    request of the second one, and then the start of a line. -/
private def interleavedPost : List (Call Unit) :=
  [.registerRequestHandler (ascii "*") keepBody,
    .poll (some [.server ⟨some 5, true, true⟩, .server ⟨some 6, true, true⟩]),
    .poll (some [.client (arrive 0 postHead),
      .client (arrive 1 (ascii "GET /b HTTP/1.1" ++ crlf ++ crlf))]),
    .poll (some [.client (arrive 0 (ascii "hi"))]),
    .poll (some [.client (arrive 0 (ascii "GE"))])]
where
  arrive (id : Nat) (unread : Bytes) : ClientEvent Unit :=
    .plain id ⟨unread, [.ready 999, .fail .EAGAIN]⟩

/-- The reader of the first connection gives the request three times: with its head, with its body,
    and once more behind it, as nothing has started the parser on another request. -/
theorem connection_reader_interleaved :
    ∃ (s : ServerState Unit) (r : Reader),
      interleavedPost.foldlM (step (fun p t => some (simpleMatch p t)) true) { user := () } =
        some s ∧
      Reader.Follows (fun p t => some (simpleMatch p t)) true {}
        (visitsTo 0 (visitsOf (fun p t => some (simpleMatch p t)) true { user := () }
          interleavedPost)) r ∧
      r.taken.flatMap Part.bytes = postHead ++ ascii "hi" ∧ r.buffer = ascii "GE" ∧
      r.given = [.handler .POST (ascii "/a") [] false,
        .handler .POST (ascii "/a") (ascii "hi") true, .handler .POST (ascii "/a") [] true] := by
  obtain ⟨s, hrun, hs⟩ := Option.map_eq_some_iff.mp (show
    (interleavedPost.foldlM (step (fun p t => some (simpleMatch p t)) true) { user := () }).map
        (fun s => ((effectsOf s.log 0).filter isGiven,
          (s.client? 0).map fun c => c.conn.buffer)) =
      some ([.handler .POST (ascii "/a") [] false, .handler .POST (ascii "/a") (ascii "hi") true,
        .handler .POST (ascii "/a") [] true], some (ascii "GE")) by decide +kernel)
  obtain ⟨hgiven, hbuffer⟩ := Prod.mk.inj hs
  obtain ⟨c, hc, hrest⟩ := Option.map_eq_some_iff.mp hbuffer
  obtain ⟨r, hfollows, -, hstream, hreader, hat⟩ := connection_reader () interleavedPost 0 s hrun
  -- its events have read all three chunks
  have hreceived : (visitsTo 0 (visitsOf (fun p t => some (simpleMatch p t)) true { user := () }
      interleavedPost)).flatMap Visit.received = postHead ++ ascii "hi" ++ ascii "GE" := by
    decide +kernel
  have hge : r.buffer = ascii "GE" := (hat c hc).buffer.symm.trans hrest
  refine ⟨s, r, hrun, hfollows, ?_, hge, hreader.trans hgiven⟩
  rw [hreceived, hge] at hstream
  exact List.append_cancel_right hstream

end Server

end Httpoll.Native
