import Httpoll.Native.WebsocketConnection

/-!
# `Server`

The embedding of `hpl_server.cc`: the table of registered handlers, and what the loop of
`Server::Poll` does for an `EPOLLIN` event of a client connection. `std::regex_match` is a
parameter. What an event does that can be seen from outside is listed as its effects.

The set-up of the listening socket, the accepting of connections and the pings of
`ServerPing` are left out; `epoll_ctl` is taken to succeed.
-/

namespace Httpoll.Native

variable {σ : Type}

/-! ## `std::map<std::string, RequestHandler>` -/

/-- The handlers by pattern, in the byte order of the patterns. -/
structure HandlerTable (σ : Type) where
  entries : List (Bytes × RequestHandler σ)
  sorted : (entries.map Prod.fst).Pairwise (· < ·)

namespace HandlerTable

/-- `std::map()` -/
def empty : HandlerTable σ := ⟨[], .nil⟩

/-- Put an entry in its place, instead of one with the same key. -/
def assignEntry (key : Bytes) (handler : RequestHandler σ) :
    List (Bytes × RequestHandler σ) → List (Bytes × RequestHandler σ)
  | [] => [(key, handler)]
  | e :: rest =>
    if e.1 = key then (key, handler) :: rest
    else if key < e.1 then (key, handler) :: e :: rest
    else e :: assignEntry key handler rest

private theorem mem_assignEntry {key k : Bytes} {handler : RequestHandler σ}
    {entries : List (Bytes × RequestHandler σ)}
    (h : k ∈ (assignEntry key handler entries).map Prod.fst) :
    k = key ∨ k ∈ entries.map Prod.fst := by
  induction entries with
  | nil => simpa [assignEntry] using h
  | cons e rest ih =>
    unfold assignEntry at h
    split at h
    · rename_i he
      subst he
      exact .inr h
    · split at h
      · exact List.mem_cons.mp h
      · rcases List.mem_cons.mp h with h | h
        · exact .inr (List.mem_cons.mpr (.inl h))
        · exact (ih h).imp id (List.mem_cons_of_mem _)

private theorem sorted_assignEntry {key : Bytes} {handler : RequestHandler σ}
    {entries : List (Bytes × RequestHandler σ)}
    (hsorted : (entries.map Prod.fst).Pairwise (· < ·)) :
    ((assignEntry key handler entries).map Prod.fst).Pairwise (· < ·) := by
  induction entries with
  | nil => simp [assignEntry]
  | cons e rest ih =>
    obtain ⟨hle, hrest⟩ := List.pairwise_cons.mp hsorted
    unfold assignEntry
    split
    · rename_i he
      subst he
      exact hsorted
    · rename_i hne
      split
      · rename_i hlt
        refine List.pairwise_cons.mpr ⟨?_, hsorted⟩
        intro k hk
        rcases List.mem_cons.mp hk with rfl | hk
        · exact hlt
        · exact List.lt_trans hlt (hle k hk)
      · rename_i hge
        refine List.pairwise_cons.mpr ⟨?_, ih hrest⟩
        intro k hk
        rcases mem_assignEntry hk with rfl | hk
        · exact Std.lt_of_le_of_ne (List.not_lt.mp hge) hne
        · exact hle k hk

/-- `request_handlers[key] = handler` -/
def assign (t : HandlerTable σ) (key : Bytes) (handler : RequestHandler σ) : HandlerTable σ :=
  ⟨assignEntry key handler t.entries, sorted_assignEntry t.sorted⟩

end HandlerTable

/-- The loop of `RegisterRequestHandler`: a `.` is inserted before every `*`. -/
def insertDots (uri : Bytes) : Bytes :=
  uri.flatMap fun c => if c = '*'.toUInt8 then ['.'.toUInt8, c] else [c]

/-- One round of that loop, with the iterator as an index into `uri_copy`. `insert` leaves it
    at the `.`, so it is moved twice. -/
def insertDotsBody (s : Bytes × Nat) : Option (Loop.Step (Bytes × Nat) Bytes) :=
  let (uriCopy, iter) := s
  if iter ≠ uriCopy.length then
    if byteAt uriCopy iter = '*'.toUInt8 then
      some (.next (uriCopy.insertIdx iter '.'.toUInt8, iter + 2))
    else some (.next (uriCopy, iter + 1))
  else some (.done uriCopy)

/-- `RegisterRequestHandler` -/
def registerRequestHandler (table : HandlerTable σ) (uri : Bytes) (handler : RequestHandler σ) :
    HandlerTable σ :=
  table.assign (insertDots uri) handler

/-! ## Events -/

/-- How an event can bring the server down. -/
inductive PollFault where
  /-- `http_handlers` has no element at `index`. -/
  | handlerIndex (index size : Nat)
  /-- A null `ws_conn` is dereferenced. -/
  | nullWsConn
  /-- `std::regex` throws on a pattern. -/
  | regexError
  /-- A WebSocket frame is read outside of the buffer. -/
  | frame (fault : CheckedBuffer.Fault)
  deriving Repr, DecidableEq

/-- What an event does, as seen by the user's callbacks and by the peer. -/
inductive Effect where
  /-- A request handler is called, of the entry for `method`. -/
  | handler (method : HttpMethod) (uri body : Bytes) (isFinal : Bool)
  | wsConnectHook (uri : Bytes)
  | wsReadyHook (uri : Bytes)
  | wsWillCloseHook (uri : Bytes)
  /-- `on_data_` is called. -/
  | onData (opcode : Fin 16) (payload : Bytes)
  /-- A response without a body is written. -/
  | respond (code : Nat) (version : HttpVersion)
  /-- The response 101 is written, with the accept key for `wsKey`. -/
  | switchProtocols (version : HttpVersion) (wsKey : Bytes)
  | write (data : Bytes)
  /-- `CloseConn` -/
  | close
  deriving Repr, DecidableEq

/-- What an event comes to: the connection unless it was closed, the user context, and the
    effects. -/
structure Served (σ : Type) where
  conn : Option (Connection σ)
  user : σ
  effects : List Effect

namespace Server

variable (regexMatch : (pattern text : Bytes) → Option Bool)

/-- The loop of `FindRequestHandler`: the first entry whose pattern matches. `regexMatch`
    gives `none` when its pattern is no regular expression. -/
def findEntry (uriStr : Bytes) :
    List (Bytes × RequestHandler σ) → Except PollFault (Option (RequestHandler σ))
  | [] => .ok none
  | (pattern, handler) :: rest =>
    match regexMatch pattern uriStr with
    | none => .error .regexError
    | some true => .ok (some handler)
    | some false => findEntry uriStr rest

/-- `FindRequestHandler`; the URI is taken as a C-string. -/
def findRequestHandler (table : HandlerTable σ) (uri : Bytes) :
    Except PollFault (Option (RequestHandler σ)) :=
  findEntry regexMatch (cString uri 0) table.entries

/-- The call of a hook that may be empty: `n` becomes what it returns. -/
def callHook (hook : Option (WsHook σ)) (uri : Bytes) (effect : Effect) (n : Int) (user : σ) :
    Int × σ × List Effect :=
  match hook with
  | some hook => ((hook user uri).1, (hook user uri).2, [effect])
  | none => (n, user, [])

/-- `conn->Write`; an invalid descriptor is written nothing to. -/
def connWrite (c : Connection σ) (response : Effect) : List Effect :=
  if c.fd = -1 then [] else [response]

/-! ## The dispatch of a request -/

/-- The hooks around the upgrade of a connection to `ws`. -/
def upgrade (handlers : RequestHandler σ) (ws : WebsocketConnection σ) (c : Connection σ)
    (user : σ) : Served σ :=
  let uri := c.parser.uri
  let (n, user, connect) := callHook handlers.wsConnectHook uri (.wsConnectHook uri) 0 user
  if n = -1 then { conn := none, user, effects := connect ++ [.close] }
  else
    let rsp := connWrite c (.switchProtocols c.parser.version ws.wsKey)
    let (n, user, ready) := callHook handlers.wsReadyHook uri (.wsReadyHook uri) n user
    if n = -1 then { conn := none, user, effects := connect ++ rsp ++ ready ++ [.close] }
    else { conn := some c, user, effects := connect ++ rsp ++ ready }

/-- `http_handlers[static_cast<int>(method)]` -/
def handlerAt (handlers : RequestHandler σ) (method : HttpMethod) :
    Except PollFault (Option (Handler σ)) :=
  match handlers.httpHandlers[method.toNat]? with
  | some handler => .ok handler
  | none => .error (.handlerIndex method.toNat HttpMethod.UNKNOWN.toNat)

/-- The call of a request handler, and `CloseConn` when there is none or it returns -1. -/
def callHandler (handler : Option (Handler σ)) (isFinal : Bool) (c : Connection σ) (user : σ) :
    Served σ :=
  match handler with
  | none => { conn := none, user, effects := [.close] }
  | some handler =>
    let uri := c.parser.uri
    let reply := handler user uri c.partialBody isFinal
    let call := Effect.handler c.parser.method uri c.partialBody isFinal
    if reply.ret = -1 then { conn := none, user := reply.user, effects := [call, .close] }
    else
      { conn := some { c with partialBody := reply.partialBody }
        user := reply.user
        effects := [call] }

/-- The dispatch of a request of which `ProcessDataIn` has returned `ret`, 0 or 1. -/
def dispatch (table : HandlerTable σ) (ret : Int) (c : Connection σ) (user : σ) :
    Except PollFault (Served σ) := do
  match ← findRequestHandler regexMatch table c.parser.uri with
  | none =>
    let rsp := connWrite c (.respond 404 c.parser.version)
    .ok { conn := none, user, effects := rsp ++ [.close] }
  | some handlers =>
    if c.shouldUpgradeWebsocket then
      match c.upgradeToWebsocket handlers.wsMessageHandler handlers.wsWillCloseHook with
      | (none, _) => .error .nullWsConn -- the log line dereferences it
      | (some ws, c) => .ok (upgrade handlers ws c user)
    else do
      let handler ← handlerAt handlers c.parser.method
      .ok (callHandler handler (ret = 1) c user)

/-! ## An event -/

/-- The outcome of an event of a connection. -/
inductive EventResult (σ : Type) where
  /-- The event has been served. -/
  | served (r : Served σ) (s : Socket)
  /-- The server goes down. -/
  | fault (f : PollFault)
  /-- The run is cut off inside the event: the socket has no more answers. -/
  | unfinished

/-- `Poll` on a WebSocket connection after `Read`. -/
def afterRead (ws : WebsocketConnection σ) (o : WebsocketConnection.ReadOutcome σ) : Served σ :=
  let effects := (o.call.map fun (opcode, payload) => Effect.onData opcode payload).toList ++
    o.writes.map .write
  if o.ret = -1 then
    let (_, user, hook) := callHook ws.willCloseHook [] (.wsWillCloseHook []) 0 o.user
    { conn := none, user, effects := effects ++ hook ++ [.close] }
  else { conn := some o.conn, user := o.user, effects }

/-- `Poll` on `EPOLLIN` of a connection that was upgraded. -/
def pollWebsocket (pingPong : Bool) (ws : WebsocketConnection σ) (c : Connection σ) (s : Socket)
    (user : σ) : EventResult σ :=
  match s.answers with
  | [] => .unfinished
  | answer :: answers =>
    let (result, unread) := answer.read s.unread c.readLen
    match ws.read pingPong c result user with
    | .ok o => .served (afterRead ws o) ⟨unread, answers⟩
    | .error f => .fault (.frame f)

/-- What becomes of an event that goes on to the dispatch. -/
def afterDispatch (s : Socket) : Except PollFault (Served σ) → EventResult σ
  | .ok r => .served r s
  | .error f => .fault f

/-- `Poll` on `EPOLLIN` of a connection that was not upgraded; `none` when it hangs. -/
def pollHttp (table : HandlerTable σ) (c : Connection σ) (s : Socket) (user : σ) :
    Option (EventResult σ) :=
  match c.processDataIn s with
  | none => none
  | some (.unfinished ..) => some .unfinished
  | some (.returned ret c s _) =>
    if ret = -2 then some (.served { conn := none, user, effects := [.close] } s)
    else if ret = 1 ∨ ret = 0 then
      some (afterDispatch s (dispatch regexMatch table ret c user))
    else some (.served { conn := some c, user, effects := [] } s)

/-- What the loop of `Poll` does on `EPOLLIN` of a client connection. -/
def pollEvent (pingPong : Bool) (table : HandlerTable σ) (c : Connection σ) (s : Socket)
    (user : σ) : Option (EventResult σ) :=
  match c.wsConn with
  | some ws => some (pollWebsocket pingPong ws c s user)
  | none => pollHttp regexMatch table c s user

/-- How the event brings the server down, when it does. -/
def faultOf : Option (EventResult σ) → Option PollFault
  | some (.fault f) => some f
  | _ => none

end Server

end Httpoll.Native
