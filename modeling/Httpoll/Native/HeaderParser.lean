import Httpoll.ForStd.Loop
import Httpoll.Native.RequestLine

/-!
# `HttpHeaderParser`

The embedding of `hpl_header_parser.h` and `hpl_header_parser.cc`. `pushLine` takes
one line (or, once the headers are over, one chunk of the body) and updates the
parser in place. Two of its loops, over the values of the Upgrade and the
Connection header, are run by `Loop.run`: the result is `none` when the fuel that
bounds them is used up.

`connection_` is left out: no code reads or writes it.
-/

namespace Httpoll.Native

/-- `HttpHeaderParser::ParserState` -/
inductive ParserState where
  | FirstLine | Headers | Body | Done
  deriving Repr, DecidableEq

/-! ## `std::map<std::string, std::string>` -/

/-- The header map: entries in the order of their insertion, no key twice. -/
structure HeaderMap where
  entries : List (Bytes × Bytes)
  nodup : (entries.map Prod.fst).Nodup
  deriving DecidableEq

namespace HeaderMap

/-- `std::map()` -/
def empty : HeaderMap := ⟨[], List.nodup_nil⟩

/-- `find(key)` -/
def find (m : HeaderMap) (key : Bytes) : Option Bytes := m.entries.lookup key

/-- `emplace(key, value)`: an entry that is there is kept. -/
def emplace (m : HeaderMap) (key value : Bytes) : HeaderMap :=
  if h : key ∈ m.entries.map Prod.fst then m
  else ⟨m.entries ++ [(key, value)], by
    rw [List.map_append, List.nodup_append]
    refine ⟨m.nodup, by simp, ?_⟩
    rintro k hk k' hk' rfl
    obtain rfl : k = key := by simpa using hk'
    exact h hk⟩

end HeaderMap

/-- `hpl::HttpHeaderParser` -/
structure HttpHeaderParser where
  -- parse results
  method : HttpMethod := .UNKNOWN
  uri : Bytes := []
  version : HttpVersion := .UNKNOWN
  headers : HeaderMap := .empty
  connectionFlags : Nat := 0
  upgradeFlags : Nat := 0
  -- special headers
  host : Bytes := []
  userAgent : Bytes := []
  contentLength : Option UInt32 := none
  bodyLength : UInt32 := 0
  state : ParserState := .FirstLine
  deriving DecidableEq

def ConnectionClose : Nat := 1
def ConnectionKeepAlive : Nat := 2
def ConnectionUpgrade : Nat := 4
def UpgradeWebSocket : Nat := 1

def kContentLength : Bytes := ascii "content-length:"
def kHost : Bytes := ascii "host:"
def kConnection : Bytes := ascii "connection:"
def kUpgrade : Bytes := ascii "upgrade:"
def kUserAgent : Bytes := ascii "user-agent:"
def kUpgradeWs : Bytes := ascii "websocket"

namespace HttpHeaderParser

/-- `GetHeader`: an empty view when the key is not there. -/
def getHeader (p : HttpHeaderParser) (key : Bytes) : Bytes := (p.headers.find key).getD []

/-! ## The header branches of `PushLine` -/

/-- `std::string(iter, end_iter)` for the value that starts at or after `off`: blanks
    skipped, up to the first CR or LF. -/
def headerValue (line : Bytes) (off : Nat) : Bytes :=
  let iter := nextChar line off (· != SP)
  let endIter := nextChar line iter fun c => c == CR || c == LF
  (line.drop iter).take (endIter - iter)

/-- Content-Length branch; `iter` is where the header name starts. -/
def pushContentLength (p : HttpHeaderParser) (line : Bytes) (iter : Nat) : HttpHeaderParser :=
  let idx := nextChar line (iter + kContentLength.length) (· != SP)
  { p with contentLength := some (atoi (line.drop idx)) }

/-- One round of the `do … while (iter != line.end())` loop of the Upgrade branch,
    over the iterator and `upgrade_flags_`. -/
def upgradeBody (line : Bytes) : Nat × Nat → Option (Loop.Step (Nat × Nat) Nat)
  | (iter, flags) =>
    -- every character differs from one of the three, so the predicate always holds
    let iter := nextChar line (iter + 1) fun c => c != SP || c != CR || c != LF
    if iter = line.length then some (.done flags)
    else
      let (iter, flags) :=
        if icaseCmp (cString line iter) kUpgradeWs then
          (nextChar line (iter + 1) (· == COMMA), flags ||| UpgradeWebSocket)
        else (iter, flags)
      if iter = line.length then some (.done flags) else some (.next (iter, flags))

/-- Upgrade branch -/
def pushUpgrade (fuel : Nat) (p : HttpHeaderParser) (line : Bytes) (iter : Nat) :
    Option HttpHeaderParser :=
  (Loop.run (upgradeBody line) fuel (iter + kUpgrade.length, p.upgradeFlags)).map
    fun flags => { p with upgradeFlags := flags }

/-- Host branch -/
def pushHost (p : HttpHeaderParser) (line : Bytes) (iter : Nat) : HttpHeaderParser :=
  { p with host := headerValue line (iter + kHost.length) }

/-- The options that the Connection branch knows, in the order it tries them, with the
    flag of each. -/
def connectionOptions : List (Bytes × Nat) :=
  [(ascii "upgrade", ConnectionUpgrade), (ascii "keep-alive", ConnectionKeepAlive),
    (ascii "close", ConnectionClose)]

/-- The first known option that the text at the iterator compares equal to. -/
def findOption (value : Bytes) : Option (Bytes × Nat) :=
  connectionOptions.find? fun o => icaseCmp value o.1

/-- One round of the `do … while (true)` loop of the Connection branch, over the
    iterator and `connection_flags_`. -/
def connectionBody (line : Bytes) : Nat × Nat → Option (Loop.Step (Nat × Nat) Nat)
  | (iter, flags) =>
    let iter := nextChar line iter (· != SP)
    if iter = line.length then some (.done flags)
    else
      match findOption (cString line iter) with
      | some (option, flag) =>
        let iter := iter + option.length
        let iter := nextChar line iter (· == COMMA)
        some (.next (iter + 1, flags ||| flag))
      | none => some (.next (iter, flags)) -- ignore

/-- Connection branch -/
def pushConnection (fuel : Nat) (p : HttpHeaderParser) (line : Bytes) (iter : Nat) :
    Option HttpHeaderParser :=
  (Loop.run (connectionBody line) fuel (iter + (kConnection.length + 1), p.connectionFlags)).map
    fun flags => { p with connectionFlags := flags }

/-- User-Agent branch -/
def pushUserAgent (p : HttpHeaderParser) (line : Bytes) (iter : Nat) : HttpHeaderParser :=
  { p with userAgent := headerValue line (iter + kUserAgent.length) }

/-- Any other header: the text before the first colon is the key, leading blanks
    included. -/
def pushOther (p : HttpHeaderParser) (line : Bytes) (iter : Nat) : HttpHeaderParser :=
  let iter := nextChar line iter (· == COLON)
  if iter = line.length then p
  else { p with headers := p.headers.emplace (line.take iter) (headerValue line (iter + 1)) }

/-- The branches of `PushLine` for a header line. -/
inductive HeaderKind where
  | contentLength | upgrade | host | connection | userAgent | other
  deriving Repr, DecidableEq

/-- The branch that a header line goes to: the names are tried in this order on the
    C-string after the leading blanks. -/
def headerKind (line : Bytes) : HeaderKind :=
  let key := cString line (nextChar line 0 (· != SP))
  if icaseCmp key kContentLength then .contentLength
  else if icaseCmp key kUpgrade then .upgrade
  else if icaseCmp key kHost then .host
  else if icaseCmp key kConnection then .connection
  else if icaseCmp key kUserAgent then .userAgent
  else .other

/-- A line in state `Headers` that is not the empty line. -/
def pushHeader (fuel : Nat) (p : HttpHeaderParser) (line : Bytes) : Option HttpHeaderParser :=
  let iter := nextChar line 0 (· != SP)
  match headerKind line with
  | .contentLength => some (p.pushContentLength line iter)
  | .upgrade => p.pushUpgrade fuel line iter
  | .host => some (p.pushHost line iter)
  | .connection => p.pushConnection fuel line iter
  | .userAgent => some (p.pushUserAgent line iter)
  | .other => some (p.pushOther line iter)

/-! ## `PushLine` -/

/-- The first line of a request. -/
def pushFirstLine (p : HttpHeaderParser) (line : Bytes) : HttpHeaderParser :=
  let (method, uri, version) := parseFirstLine line
  { p with method, uri, version, state := .Headers }

/-- The empty line that ends the headers. -/
def pushBlank (p : HttpHeaderParser) : HttpHeaderParser :=
  { p with state := if p.contentLength.isSome then .Body else .Done }

/-- A chunk of the body. The length counter is an `unsigned` and wraps. -/
def pushBody (p : HttpHeaderParser) (line : Bytes) : HttpHeaderParser :=
  let bodyLength := p.bodyLength + UInt32.ofNat line.length
  match p.contentLength with
  | some n => { p with bodyLength, state := if bodyLength ≥ n then .Done else p.state }
  | none => { p with bodyLength }

/-- `PushLine` with at most `fuel` rounds for each of its loops. The value it returns is
    the `state` of the new parser. -/
def pushLineFuel (fuel : Nat) (p : HttpHeaderParser) (line : Bytes) : Option HttpHeaderParser :=
  match p.state with
  | .FirstLine => some (p.pushFirstLine line)
  | .Headers => if line = crlf then some p.pushBlank else p.pushHeader fuel line
  | .Body => some (p.pushBody line)
  | .Done => some p

/-- `PushLine`, with as much fuel as its loops can use; `none` when it never returns. -/
def pushLine (p : HttpHeaderParser) (line : Bytes) : Option HttpHeaderParser :=
  p.pushLineFuel (line.length + 3) line

end HttpHeaderParser

end Httpoll.Native
