import Httpoll.Spec.HeaderBlock

/-!
# The dispatch of a request

After `ProcessDataIn` has returned 0 or 1 the server looks for a handler. It indexes
`http_handlers` with the method, which is out of bounds for `UNKNOWN`, and it dereferences
the result of `UpgradeToWebsocket`, which is null when no key was found. What leads to
either is said here in terms of the header block that the client sent.

## Key results

- `dispatch_handlerIndex_iff`, `dispatch_nullWsConn_iff`: when a dispatch fails
- `Session.handlerIndex_inBounds_iff`: the index is in bounds unless a request line with
  an unknown method meets a pattern that matches the empty URI
- `Session.upgrade_nonnull_iff`: the upgrade finds a key exactly when the client sent one
  under one of three spellings
-/

namespace Httpoll.Native.Server

open Connection HttpHeaderParser

variable {σ : Type} {regexMatch : Bytes → Bytes → Option Bool} {pingPong : Bool}
  {table : HandlerTable σ} {c c' : Connection σ} {s s' : Socket} {user : σ} {ret : Int}

/-! ## When a dispatch fails -/

/-- The search for a handler fails on a pattern only. -/
theorem findEntry_error {uri : Bytes} {entries : List (Bytes × RequestHandler σ)} {f : PollFault}
    (h : findEntry regexMatch uri entries = .error f) : f = .regexError := by
  induction entries with
  | nil => cases h
  | cons e rest ih =>
    unfold findEntry at h
    split at h
    · cases h; rfl
    · cases h
    · exact ih h

theorem toNat_lt_iff (method : HttpMethod) :
    method.toNat < HttpMethod.UNKNOWN.toNat ↔ method ≠ .UNKNOWN := by
  cases method <;> decide

/-- The array has an element for each method but `UNKNOWN`. -/
theorem handlerAt_error_iff (handlers : RequestHandler σ) (method : HttpMethod) (f : PollFault) :
    handlerAt handlers method = .error f ↔
      method = .UNKNOWN ∧ f = .handlerIndex HttpMethod.UNKNOWN.toNat HttpMethod.UNKNOWN.toNat := by
  unfold handlerAt
  by_cases hu : method = .UNKNOWN
  · subst hu
    rw [Vector.getElem?_eq_none (Nat.le_refl _)]
    simp [eq_comm]
  · rw [Vector.getElem?_eq_getElem ((toNat_lt_iff method).mpr hu)]
    simp [hu]

/-- `UpgradeToWebsocket` returns null when the three look-ups give empty values. -/
theorem upgradeToWebsocket_eq_none_iff (hplain : c.wsConn = none)
    (onMsg : Option (WsHandler σ)) (hook : Option (WsHook σ)) :
    (c.upgradeToWebsocket onMsg hook).1 = none ↔
      ∀ name ∈ wsKeyNames, c.parser.getHeader name = [] := by
  unfold upgradeToWebsocket
  simp only [hplain]
  -- the first look-up that gives a non-empty value wins
  have hfind : (wsKeyNames.map c.parser.getHeader).find? (· != []) = none ↔
      ∀ name ∈ wsKeyNames, c.parser.getHeader name = [] := by
    simp [List.find?_eq_none]
  cases h : (wsKeyNames.map c.parser.getHeader).find? (· != []) with
  | none => simpa [h] using hfind
  | some key => simpa [h] using hfind

/-- A connection that is to be upgraded is not upgraded yet, and its version is known. -/
theorem shouldUpgradeWebsocket_spec (h : c.shouldUpgradeWebsocket = true) :
    c.wsConn = none ∧ c.parser.version ≠ .UNKNOWN := by
  unfold shouldUpgradeWebsocket at h
  split at h
  · cases h
  · rename_i hplain
    simp only [Bool.and_eq_true, Bool.or_eq_true, beq_iff_eq] at h
    refine ⟨by simpa using hplain, ?_⟩
    rcases h.2 with hv | hv <;> simp [hv]

/-- The dispatch once a handler was found. -/
theorem dispatch_found {handlers : RequestHandler σ}
    (h : findRequestHandler regexMatch table c.parser.uri = .ok (some handlers)) :
    dispatch regexMatch table ret c user =
      if c.shouldUpgradeWebsocket then
        match c.upgradeToWebsocket handlers.wsMessageHandler handlers.wsWillCloseHook with
        | (none, _) => .error .nullWsConn
        | (some ws, c) => .ok (upgrade handlers ws c user)
      else
        match handlerAt handlers c.parser.method with
        | .ok handler => .ok (callHandler handler (ret = 1) c user)
        | .error f => .error f := by
  unfold dispatch
  rw [h]
  simp only [bind, Except.bind]
  split
  · rfl
  · cases handlerAt handlers c.parser.method <;> rfl

/-- A dispatch indexes `http_handlers` out of bounds when the method is unknown, a pattern
    matches the URI, and the connection is not to be upgraded. -/
theorem dispatch_handlerIndex_iff (index size : Nat) :
    dispatch regexMatch table ret c user = .error (.handlerIndex index size) ↔
      c.parser.method = .UNKNOWN ∧ c.shouldUpgradeWebsocket = false ∧
        (∃ handlers, findRequestHandler regexMatch table c.parser.uri = .ok (some handlers)) ∧
        index = HttpMethod.UNKNOWN.toNat ∧ size = HttpMethod.UNKNOWN.toNat := by
  cases hfind : findRequestHandler regexMatch table c.parser.uri with
  | error f =>
    obtain rfl := findEntry_error hfind
    simp [dispatch, hfind, bind, Except.bind]
  | ok found =>
    cases found with
    | none => simp [dispatch, hfind, bind, Except.bind]
    | some handlers =>
      rw [dispatch_found hfind]
      cases hup : c.shouldUpgradeWebsocket with
      | true =>
        -- the upgrade does not index the array
        simp only [if_true, Bool.true_eq_false, false_and, and_false, iff_false]
        split <;> simp
      | false =>
        simp only [Bool.false_eq_true, if_false]
        cases hat : handlerAt handlers c.parser.method with
        | ok handler =>
          have hknown : c.parser.method ≠ .UNKNOWN := by
            intro hu
            cases hat.symm.trans
              ((handlerAt_error_iff handlers c.parser.method _).mpr ⟨hu, rfl⟩)
          simp [hknown]
        | error f =>
          obtain ⟨hu, rfl⟩ := (handlerAt_error_iff _ _ _).mp hat
          simp [hu, eq_comm]

/-- A dispatch that is to upgrade the connection dereferences the null pointer that
    `UpgradeToWebsocket` returns. -/
theorem dispatch_nullWsConn_iff {handlers : RequestHandler σ}
    (hfind : findRequestHandler regexMatch table c.parser.uri = .ok (some handlers))
    (hup : c.shouldUpgradeWebsocket = true) :
    dispatch regexMatch table ret c user = .error .nullWsConn ↔
      (c.upgradeToWebsocket handlers.wsMessageHandler handlers.wsWillCloseHook).1 = none := by
  rw [dispatch_found hfind, if_pos hup]
  split
  · rename_i h; simp [h]
  · rename_i h; simp [h]

/-- The fault of an event that goes on to the dispatch is that of the dispatch. -/
theorem Dispatches.faultOf_eq_some_iff (h : Dispatches c s ret c' s') (f : PollFault) :
    faultOf (pollEvent regexMatch pingPong table c s user) = some f ↔
      dispatch regexMatch table ret c' user = .error f := by
  rw [h.pollEvent_eq]
  cases dispatch regexMatch table ret c' user <;> simp [faultOf, afterDispatch]

/-! ## Patterns of literals, `.` and `*` -/

/-- A character of a pattern; `.` stands for any character that does not end a line. -/
def charMatch (p t : UInt8) : Bool := if p = '.'.toUInt8 then t != CR && t != LF else p == t

/-- `p*`, and then what `rest` matches. -/
def starMatch (p : UInt8) (rest : Bytes → Bool) : Bytes → Bool
  | [] => rest []
  | t :: ts => rest (t :: ts) || charMatch p t && starMatch p rest ts

/-- `std::regex_match` on a pattern in which at most `.` and `*` are special. -/
def simpleMatch : Bytes → Bytes → Bool
  | [] => fun text => text.isEmpty
  | [p] => fun text => text.length == 1 && text.all (charMatch p)
  | p :: q :: rest => fun text =>
    if q = '*'.toUInt8 then starMatch p (simpleMatch rest) text
    else
      match text with
      | [] => false
      | t :: ts => charMatch p t && simpleMatch (q :: rest) ts

/-- A handler for each method, which keeps the connection. -/
def keepHandlers : RequestHandler Unit :=
  { httpHandlers := .replicate _ (some fun user _ _ _ => { ret := 0, partialBody := [], user }) }

/-- A table with one pattern for all URIs. -/
def anyTable : HandlerTable Unit := registerRequestHandler .empty (ascii "*") keepHandlers

/-- The outcome of `ProcessDataIn` when the event goes on to the dispatch. -/
def dispatched (c : Connection σ) (s : Socket) : Option (Int × Connection σ × Socket) :=
  match c.wsConn, c.processDataIn s with
  | none, some (.returned ret c' s' _) => if ret = 0 ∨ ret = 1 then some (ret, c', s') else none
  | _, _ => none

theorem exists_dispatches {α : Type} (f : Int × Connection σ × Socket → α) {x : α}
    (h : (dispatched c s).map f = some x) :
    ∃ ret c' s', Dispatches c s ret c' s' ∧ f (ret, c', s') = x := by
  obtain ⟨⟨ret, c', s'⟩, hdisp, hx⟩ := Option.map_eq_some_iff.mp h
  refine ⟨ret, c', s', ?_, hx⟩
  unfold dispatched at hdisp
  split at hdisp
  · rename_i log hplain hcall
    split at hdisp
    · rename_i hret
      cases hdisp
      exact ⟨hplain, hret, log, hcall⟩
    · cases hdisp
  · cases hdisp

/-! ## The index into `http_handlers` -/

/-- **The index is in bounds** when the request line begins with a method that the parser
    knows, or no pattern matches the empty URI; and only then. -/
theorem Session.handlerIndex_inBounds_iff {fd : Int} {stream : Bytes} {answers : List Answer}
    (run : Session regexMatch pingPong { fd } ⟨stream, answers⟩ c s)
    (h : Dispatches c s ret c' s') (table : HandlerTable σ) (user : σ) :
    ∃ first hs, HeaderBlock stream first hs ∧
      ((∀ index size, faultOf (pollEvent regexMatch pingPong table c s user) ≠
          some (.handlerIndex index size)) ↔
        (ascii "GET" <+: first ∨ ascii "PUT" <+: first ∨ ascii "POST" <+: first) ∨
          ∀ handlers, findRequestHandler regexMatch table [] ≠ .ok (some handlers)) := by
  obtain ⟨first, hs, hblock, hparsed⟩ := run.parsed h
  refine ⟨first, hs, hblock, ?_⟩
  have hmethod : (parseFirstLine first).1 = c'.parser.method := by rw [← hparsed.requestLine]
  rw [← parseFirstLine_fst_ne_unknown_iff, hmethod]
  simp only [ne_eq, h.faultOf_eq_some_iff, dispatch_handlerIndex_iff]
  constructor
  · intro hall
    by_contra hcond
    rw [not_or, not_not] at hcond
    obtain ⟨hunknown, hmatch⟩ := hcond
    -- an unknown method comes with an empty URI and an unknown version
    have hline := parseFirstLine_unknown (hmethod.trans hunknown)
    rw [← hparsed.requestLine] at hline
    simp only [Prod.mk.injEq] at hline
    obtain ⟨-, huri, hversion⟩ := hline
    refine hall _ _ ⟨hunknown, ?_, ?_, rfl, rfl⟩
    · by_contra hup
      exact (shouldUpgradeWebsocket_spec (Bool.not_eq_false _ ▸ hup)).2 hversion
    · rw [huri]
      simpa using hmatch
  · rintro hcond index size ⟨hunknown, -, hfind, -⟩
    have hline := parseFirstLine_unknown (hmethod.trans hunknown)
    rw [← hparsed.requestLine] at hline
    simp only [Prod.mk.injEq] at hline
    rw [hline.2.1] at hfind
    obtain ⟨handlers, hfind⟩ := hfind
    rcases hcond with hknown | hnone
    · exact hknown hunknown
    · exact hnone handlers hfind

/-- A request line with a known method. -/
theorem Session.handlerIndex_inBounds_get :
    let stream := ascii "GET / HTTP/1.1" ++ crlf ++ crlf
    ∀ index size,
      faultOf (pollEvent (fun p t => some (simpleMatch p t)) true anyTable { fd := 4 }
        ⟨stream, [.ready 99]⟩ ()) ≠ some (.handlerIndex index size) := by
  intro stream
  obtain ⟨ret, c', s', h, -⟩ := exists_dispatches (c := ({ fd := 4 } : Connection Unit))
    (s := ⟨stream, [.ready 99]⟩) Prod.fst (x := 1) (by decide)
  have run : Session (σ := Unit) (fun p t => some (simpleMatch p t)) true { fd := 4 }
      ⟨stream, [.ready 99]⟩ { fd := 4 } ⟨stream, [.ready 99]⟩ := .nil
  obtain ⟨first, hs, hblock, hiff⟩ := Session.handlerIndex_inBounds_iff run h anyTable ()
  have hget : HeaderBlock stream (ascii "GET / HTTP/1.1" ++ crlf) [] :=
    ⟨by decide, by simp, [], by decide⟩
  -- the header block of a stream is unique, so it is this one
  obtain ⟨rfl, rfl⟩ := hblock.unique hget
  exact hiff.mpr (.inl (.inl (by decide)))

/-- A request line with a method that the parser does not know, and a pattern that matches
    any URI: the index is the length of the array. -/
theorem Session.handlerIndex_outOfBounds :
    let c : Connection Unit := { fd := 4 }
    let s : Socket := ⟨ascii "DELETE / HTTP/1.1" ++ crlf ++ crlf, [.ready 99]⟩
    Session (fun p t => some (simpleMatch p t)) true c s c s ∧
      (∃ ret c' s', Dispatches c s ret c' s') ∧
      faultOf (pollEvent (fun p t => some (simpleMatch p t)) true anyTable c s ()) =
        some (.handlerIndex 9 9) := by
  intro c s
  obtain ⟨ret, c', s', h, -⟩ := exists_dispatches (c := c) (s := s) Prod.fst (x := 1) (by decide)
  exact ⟨.nil, ⟨ret, c', s', h⟩, by decide⟩

/-! ## The key of the upgrade -/

/-- **The upgrade finds a key** exactly when the header block has a non-empty value under one
    of the three names that `UpgradeToWebsocket` looks up, spelled as there, in the first
    field with this name. -/
theorem Session.upgrade_nonnull_iff {fd : Int} {stream : Bytes} {answers : List Answer}
    (run : Session regexMatch pingPong { fd } ⟨stream, answers⟩ c s)
    (h : Dispatches c s ret c' s') {table : HandlerTable σ} {handlers : RequestHandler σ}
    (hfind : findRequestHandler regexMatch table c'.parser.uri = .ok (some handlers))
    (hup : c'.shouldUpgradeWebsocket = true) (user : σ) :
    ∃ first hs, HeaderBlock stream first hs ∧
      ((c'.upgradeToWebsocket handlers.wsMessageHandler handlers.wsWillCloseHook).1 ≠ none ∧
          faultOf (pollEvent regexMatch pingPong table c s user) ≠ some .nullWsConn ↔
        ∃ name ∈ wsKeyNames, ∃ key, key ≠ [] ∧ (headerFields hs).lookup name = some key) := by
  obtain ⟨first, hs, hblock, hparsed⟩ := run.parsed h
  refine ⟨first, hs, hblock, ?_⟩
  rw [ne_eq, ne_eq, h.faultOf_eq_some_iff, dispatch_nullWsConn_iff hfind hup, and_self,
    upgradeToWebsocket_eq_none_iff (shouldUpgradeWebsocket_spec hup).1]
  simp only [getHeader, hparsed.headers, not_forall]
  -- a header without a field reads as the empty text, which is no key
  constructor
  · rintro ⟨name, hname, hkey⟩
    cases hfield : (headerFields hs).lookup name with
    | none => simp [hfield] at hkey
    | some key => exact ⟨name, hname, key, by simpa [hfield] using hkey, hfield⟩
  · rintro ⟨name, hname, key, hne, hfield⟩
    exact ⟨name, hname, by simpa [hfield] using hne⟩

private def upgradeRequest (hs : List Bytes) : Bytes :=
  ((ascii "GET / HTTP/1.1" ++ crlf) :: hs ++ [crlf]).flatten

private def upgradeLines : List Bytes :=
  [ascii "Upgrade: websocket" ++ crlf, ascii "Connection: Upgrade" ++ crlf]

/-- An upgrade request with its key. -/
theorem Session.upgrade_nonnull_key :
    let hs := upgradeLines ++ [ascii "Sec-WebSocket-Key: abc" ++ crlf]
    let s : Socket := ⟨upgradeRequest hs, [.ready 999]⟩
    ∃ ret c' s', Dispatches ({ fd := 4 } : Connection Unit) s ret c' s' ∧
      c'.shouldUpgradeWebsocket = true ∧ (c'.upgradeToWebsocket none none).1 ≠ none ∧
      faultOf (pollEvent (fun p t => some (simpleMatch p t)) true anyTable { fd := 4 } s ()) ≠
        some .nullWsConn := by
  intro hs s
  obtain ⟨ret, c', s', h, hc'⟩ := exists_dispatches (c := ({ fd := 4 } : Connection Unit)) (s := s)
    (fun r => (r.2.1.parser.uri, r.2.1.shouldUpgradeWebsocket)) (x := (ascii "/", true)) (by decide)
  obtain ⟨huri, hup⟩ := Prod.mk.inj hc'
  have hfind : findRequestHandler (fun p t => some (simpleMatch p t)) anyTable c'.parser.uri =
      .ok (some keepHandlers) := by
    rw [huri]; rfl
  have run : Session (σ := Unit) (fun p t => some (simpleMatch p t)) true { fd := 4 } s
      { fd := 4 } s := .nil
  obtain ⟨first, hs', hblock, hiff⟩ := Session.upgrade_nonnull_iff run h hfind hup ()
  have hget : HeaderBlock s.unread (ascii "GET / HTTP/1.1" ++ crlf) hs :=
    ⟨by decide, by decide, [], by decide⟩
  obtain ⟨rfl, rfl⟩ := hblock.unique hget
  exact ⟨ret, c', s', h, hup, hiff.mpr ⟨ascii "Sec-WebSocket-Key", by decide, ascii "abc",
    by decide, by decide⟩⟩

/-- An upgrade request without a key brings the server down. -/
theorem Session.upgrade_null :
    let c : Connection Unit := { fd := 4 }
    let s : Socket := ⟨upgradeRequest upgradeLines, [.ready 999]⟩
    Session (fun p t => some (simpleMatch p t)) true c s c s ∧
      (∃ ret c' s', Dispatches c s ret c' s' ∧ c'.shouldUpgradeWebsocket = true ∧
        findRequestHandler (fun p t => some (simpleMatch p t)) anyTable c'.parser.uri =
          .ok (some keepHandlers) ∧
        (c'.upgradeToWebsocket keepHandlers.wsMessageHandler
          keepHandlers.wsWillCloseHook).1 = none) ∧
      faultOf (pollEvent (fun p t => some (simpleMatch p t)) true anyTable c s ()) =
        some .nullWsConn := by
  intro c s
  obtain ⟨ret, c', s', h, hc'⟩ := exists_dispatches (c := c) (s := s)
    (fun r => (r.2.1.parser.uri, r.2.1.shouldUpgradeWebsocket,
      wsKeyNames.map r.2.1.parser.getHeader)) (x := (ascii "/", true, [[], [], []])) (by decide)
  simp only [Prod.mk.injEq] at hc'
  obtain ⟨huri, hup, hkeys⟩ := hc'
  have hfind : findRequestHandler (fun p t => some (simpleMatch p t)) anyTable c'.parser.uri =
      .ok (some keepHandlers) := by
    rw [huri]; rfl
  have hnull : (c'.upgradeToWebsocket keepHandlers.wsMessageHandler
      keepHandlers.wsWillCloseHook).1 = none := by
    rw [upgradeToWebsocket_eq_none_iff (shouldUpgradeWebsocket_spec hup).1]
    simpa [wsKeyNames] using hkeys
  exact ⟨.nil, ⟨ret, c', s', h, hup, hfind, hnull⟩,
    (h.faultOf_eq_some_iff _).mpr ((dispatch_nullWsConn_iff hfind hup).mpr hnull)⟩

end Httpoll.Native.Server
