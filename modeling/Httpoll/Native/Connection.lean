import Mathlib.Data.Nat.PSub
import Httpoll.ForStd.Lines
import Httpoll.Native.HeaderParser
import Httpoll.Native.RequestHandler
import Httpoll.Native.Socket

/-!
# `Connection`

The embedding of `hpl_connection.h` and `hpl_connection.cc`, in the build of
`httpoll.mk` (`SMALL_MEMORY` defined as 1024). `ProcessDataIn` is a loop over
`read(2)` calls around a loop over the lines of the buffer; the first goes on for as
long as the socket has answers, the second is run by `Loop.run`.

Alongside its results the model keeps a log of the `PushLine` calls that
`ProcessDataIn` makes. The code has no such log, and nothing depends on it.
-/

namespace Httpoll.Native

/-- `SMALL_MEMORY`, from `httpoll.mk`. -/
def SMALL_MEMORY : Nat := 1024

variable {σ : Type}

/-- The state of `hpl::WebsocketConnection`. -/
structure WebsocketConnection (σ : Type) where
  wsKey : Bytes
  onData : Option (WsHandler σ)
  willCloseHook : Option (WsHook σ)
  lastPayload : Bytes := []

/-- `hpl::Connection` -/
structure Connection (σ : Type) where
  fd : Int
  buffer : Bytes := []
  wsConn : Option (WebsocketConnection σ) := none
  partialBody : Bytes := []
  parser : HttpHeaderParser := {}

namespace Connection

/-! ## `PopLine` -/

/-- The scanning loop of `PopLine`: the index of the first CR that is followed by LF. -/
def findNewLine : Bytes → Option Nat
  | c :: c' :: rest =>
    if c = CR ∧ c' = LF then some 0 else (findNewLine (c' :: rest)).map (· + 1)
  | _ => none

/-- `PopLine`: the first line of the buffer with its CRLF, and the connection without it. -/
def popLine (c : Connection σ) : Option (Bytes × Connection σ) :=
  if c.buffer.length < 2 then none
  else
    match findNewLine c.buffer with
    | none => none
    | some idx =>
      some (c.buffer.take (idx + 2), { c with buffer := c.buffer.drop (idx + 2) })

/-- `kIntNewLine` -/
def kIntNewLine : Nat := CR.toNat ||| LF.toNat <<< 8

/-- One round of the scanning loop of `PopLine`, as the code has it: two bytes are compared at
    once, at an index below `size() - 1`. That is a subtraction of `size_t` values; there is no
    result where it wraps around. -/
def scanNewLineBody (buffer : Bytes) (idx : Nat) : Option (Loop.Step Nat Nat) := do
  let last ← buffer.length.psub 1
  if idx < last then
    if load16 buffer idx = kIntNewLine then return .done idx else return .next (idx + 1)
  else return .done idx

/-- `PopLine`, with that loop: what it returns, and the connection afterwards. -/
def popLineScan (c : Connection σ) : Option (Option Bytes × Connection σ) :=
  if c.buffer.length < 2 then some (none, c)
  else do
    let idx ← Loop.run (scanNewLineBody c.buffer) c.buffer.length 0
    let last ← c.buffer.length.psub 1
    if idx ≥ last then return (none, c)
    else
      return (some (c.buffer.take (idx + 2)), { c with buffer := c.buffer.drop (idx + 2) })

/-- One round of a loop that calls `PopLine` for as long as it returns a line, and keeps the
    lines. -/
def popLinesBody : Connection σ × List Bytes →
    Option (Loop.Step (Connection σ × List Bytes) (Connection σ × List Bytes))
  | (c, lines) => do
    let (line, c) ← c.popLineScan
    match line with
    | some line => return .next (c, lines ++ [line])
    | none => return .done (c, lines)

/-! ## `Read` -/

/-- `SMALL_MEMORY - old_size`, a subtraction of `size_t`. -/
def readLen (c : Connection σ) : Nat := (2 ^ 64 + SMALL_MEMORY - c.buffer.length) % 2 ^ 64

/-- `Read`, on the result of its `read(2)`. Returns -1 on an error or at the end of the
    stream, 0 when the stream is drained, 1 to try another read. -/
def read (c : Connection σ) (r : ReadResult) : Int × Connection σ :=
  match r with
  | .data bytes =>
    if bytes.length > 0 then (1, { c with buffer := c.buffer ++ bytes }) else (-1, c)
  | .error e =>
    if e = .EAGAIN then (0, c) else if e = .EINTR then (1, c) else (-1, c)

/-! ## `Write` -/

/-- `Write`, on the answer to its `write(2)`: what it returns, and what the socket accepts. -/
def write (c : Connection σ) (data : Bytes) (a : WriteAnswer) : Int × Bytes :=
  if c.fd = -1 then (-1, [])
  else
    match a with
    | .accepts _ => (1, a.accepted data)
    | .fail e => (if e = .EAGAIN then 0 else if e = .EINTR then 1 else -1, a.accepted data)

/-! ## `ProcessDataIn` -/

/-- `state_ret` -/
def stateRet : ParserState → Int
  | .Body => 0
  | .Done => 1
  | _ => -1

/-- One `PushLine` call of `ProcessDataIn`: the state of the parser before it, `buffer_`
    before the chunk was taken out, and the chunk. -/
structure Pushed where
  state : ParserState
  buffer : Bytes
  chunk : Bytes
  deriving DecidableEq

/-- How the loop over the lines of the buffer is left. -/
inductive Drained (σ : Type) where
  /-- By `break`, to read again. -/
  | exhausted (c : Connection σ) (log : List Pushed)
  /-- By `return ret`. -/
  | returned (ret : Int) (c : Connection σ) (log : List Pushed)

/-- `PushLine` on a chunk that was taken out of `buffer`, and the test of its result. -/
def pushChunk (buffer chunk : Bytes) (c : Connection σ) (log : List Pushed) :
    Option (Loop.Step (Connection σ × List Pushed) (Drained σ)) :=
  (c.parser.pushLine chunk).map fun parser =>
    let log := log ++ [{ state := c.parser.state, buffer, chunk }]
    let c := { c with parser }
    if parser.state = .Done ∨ parser.state = .Body then
      .done (.returned (stateRet parser.state) c log)
    else .next (c, log)

/-- One round of the loop over the lines of the buffer. -/
def drainBody : Connection σ × List Pushed →
    Option (Loop.Step (Connection σ × List Pushed) (Drained σ))
  | (c, log) =>
    match c.popLine with
    | some (line, c') => pushChunk c.buffer line c' log
    | none =>
      if c.buffer = [] then some (.done (.exhausted c log))
      else if c.parser.state ≠ .Body then some (.done (.exhausted c log))
      else
        let lengthLimit := min c.buffer.length 1024
        let partialBody := c.buffer.take lengthLimit
        pushChunk c.buffer partialBody
          { c with partialBody, buffer := c.buffer.drop lengthLimit } log

/-- The loop over the lines of the buffer: every round but the last shortens it. -/
def drain (c : Connection σ) (log : List Pushed) : Option (Drained σ) :=
  Loop.run drainBody (c.buffer.length + 1) (c, log)

/-- The outcome of a call of `ProcessDataIn` that does not hang. -/
inductive CallResult (σ : Type) where
  /-- It returned `ret`, leaving this connection and this socket. -/
  | returned (ret : Int) (c : Connection σ) (s : Socket) (log : List Pushed)
  /-- The run is cut off inside the call: the socket has no more answers. -/
  | unfinished (c : Connection σ) (unread : Bytes) (log : List Pushed)

/-- The loop of `ProcessDataIn` over `read(2)` calls. -/
def processDataInFrom : List Answer → Connection σ → Bytes → List Pushed →
    Option (CallResult σ)
  | [], c, unread, log => some (.unfinished c unread log)
  | answer :: answers, c, unread, log =>
    let (result, unread) := answer.read unread c.readLen
    let (ret, c) := c.read result
    if ret = -1 then some (.returned (-2) c ⟨unread, answers⟩ log)
    else if ret = 0 then
      some (.returned (stateRet c.parser.state) c ⟨unread, answers⟩ log)
    else
      match c.drain log with
      | none => none
      | some (.returned ret c log) => some (.returned ret c ⟨unread, answers⟩ log)
      | some (.exhausted c log) => processDataInFrom answers c unread log

/-- `ProcessDataIn`; `none` when it never returns. -/
def processDataIn (c : Connection σ) (s : Socket) : Option (CallResult σ) :=
  processDataInFrom s.answers c s.unread []

/-! ## Upgrade to WebSocket -/

/-- `ShouldUpgradeWebsocket` -/
def shouldUpgradeWebsocket (c : Connection σ) : Bool :=
  if c.wsConn.isSome then false
  else
    c.parser.upgradeFlags &&& UpgradeWebSocket != 0 &&
      c.parser.connectionFlags &&& ConnectionUpgrade != 0 &&
      (c.parser.version == .HTTP_1_1 || c.parser.version == .HTTP_1_0)

/-- The keys that `UpgradeToWebsocket` looks up, in this order. -/
def wsKeyNames : List Bytes :=
  [ascii "Sec-WebSocket-Key", ascii "Sec-WebSocket-Key1", ascii "Sec-WebSocket-Key2"]

/-- `UpgradeToWebsocket`: the pointer that it returns (`none` for null), and the
    connection. -/
def upgradeToWebsocket (c : Connection σ) (wsOnMsg : Option (WsHandler σ))
    (willCloseHook : Option (WsHook σ)) : Option (WebsocketConnection σ) × Connection σ :=
  match c.wsConn with
  | some ws => (some ws, c)
  | none =>
    match (wsKeyNames.map c.parser.getHeader).find? (· != []) with
    | none => (none, c) -- websocket key not found
    | some key =>
      let ws : WebsocketConnection σ := { wsKey := key, onData := wsOnMsg, willCloseHook }
      (some ws, { c with wsConn := some ws })

end Connection

end Httpoll.Native
