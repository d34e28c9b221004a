import Httpoll.ForStd.CheckedBuffer
import Httpoll.Native.RequestLine

/-!
# The reads of the request line

`ParseFirstLine` and what it calls once more, with every access to the memory of the line
checked: the line has its characters and the terminating NUL. The values are those of
`parseFirstLine`, which takes what lies behind the NUL for zeros.
-/

namespace Httpoll.Native

open CheckedBuffer

/-- The memory of a `std::string` that a reader may access: `data()[0]` to `data()[size()]`. -/
def memory (line : Bytes) : Bytes := line ++ [0]

/-- `ParseHttpMethod`: the load of an `int` at `method.data() + pos`. -/
def readHttpMethod (mem : Bytes) (pos endPos : Nat) : Except Fault (HttpMethod × Nat) := do
  let bytes ← load mem pos 4
  let v := load32 bytes 0
  if v &&& 0x00ffffff = IntGET then .ok (.GET, pos + 3)
  else if v &&& 0x00ffffff = IntPUT then .ok (.PUT, pos + 3)
  else if v = IntPOST then .ok (.POST, pos + 4)
  else .ok (.UNKNOWN, endPos)

/-- `std::string_view(const char *)` at `data() + p` looks for the NUL. -/
def readCString (mem : Bytes) (p : Nat) : Except Fault Bytes := scan (· == 0) mem p

/-- `::HttpVersion` on the C-string at `data() + p`. -/
def readVersionNumber (mem : Bytes) (p : Nat) : Except Fault HttpVersion := do
  let _ ← readCString mem p
  let bytes ← load mem p 4
  .ok (httpVersion bytes 0)

/-- `ParseHttpVersion` on the C-string at `data() + p`. -/
def readHttpVersion (mem : Bytes) (p : Nat) : Except Fault HttpVersion := do
  let version ← readCString mem p
  let bytes ← load mem p 4
  let v := load32 bytes 0
  if v = IntHTTP ∧ version.length > 4 ∧ byteAt version 4 = '/'.toUInt8 then
    readVersionNumber mem (p + 5)
  else if v = IntWS then do
    let _ ← readCString mem (p + 4)
    .ok .WS
  else .ok .UNKNOWN

/-- `HttpHeaderParser::ParseFirstLine`; `find` and `substr` stay within the view themselves. -/
def readFirstLine (line : Bytes) : Except Fault (HttpMethod × Bytes × HttpVersion) := do
  let (method, pos) ← readHttpMethod (memory line) 0 0
  if method = .UNKNOWN then .ok (.UNKNOWN, [], .UNKNOWN)
  else
    -- `while (line[pos] == ' ') ++pos;`
    let blanks ← scan (· != SP) (memory line) pos
    let pos := pos + blanks.length
    match findSpace line pos with
    | some nextPos =>
      let version ← readHttpVersion (memory line) (nextPos + 1)
      .ok (method, (line.drop pos).take (nextPos - pos), version)
    | none =>
      -- `npos + 1` wraps to the start of the line
      let version ← readHttpVersion (memory line) 0
      .ok (method, line.drop pos, version)

end Httpoll.Native
