import Httpoll.Native.Str

/-!
# Non-blocking sockets

The environment of a connection: the bytes that its peer sends, and how the kernel
answers the `read(2)` calls that the connection makes. How the stream is cut into
reads is up to the kernel: each answer says how many bytes had arrived.
-/

namespace Httpoll.Native

/-- The values of `errno` that the code tells apart. -/
inductive Errno where
  | EAGAIN | EINTR | other
  deriving Repr, DecidableEq

/-- The result of one `read(2)`: the bytes read (none at the end of the stream), or -1. -/
inductive ReadResult where
  | data (bytes : Bytes)
  | error (e : Errno)
  deriving Repr, DecidableEq

/-- How the kernel answers one `read(2)`. -/
inductive Answer where
  /-- `k + 1` more bytes of the stream have arrived. -/
  | ready (k : Nat)
  | fail (e : Errno)
  /-- The peer has closed the connection. -/
  | closed
  deriving Repr, DecidableEq

/-- The receiving side of a connected socket: the bytes of the stream not yet read, and
    the answers to the `read(2)` calls to come. -/
structure Socket where
  unread : Bytes
  answers : List Answer
  deriving Repr, DecidableEq

/-- One `read(2)` of at most `len` bytes, from the stream `unread`: its result, and what is
    left of the stream. With `len = 0` it returns 0, whatever the state of the socket. -/
def Answer.read (a : Answer) (unread : Bytes) (len : Nat) : ReadResult × Bytes :=
  if len = 0 then (.data [], unread)
  else
    match a with
    | ready k =>
      if unread = [] then (.error .EAGAIN, unread)
      else (.data (unread.take (min (k + 1) len)), unread.drop (min (k + 1) len))
    | fail e => (.error e, unread)
    | closed => (.data [], unread)

/-- How the kernel answers one `write(2)`. -/
inductive WriteAnswer where
  /-- It accepts `k` bytes, or all that it is given if they are fewer. -/
  | accepts (k : Nat)
  | fail (e : Errno)
  deriving Repr, DecidableEq

/-- What the socket accepts of `data`. -/
def WriteAnswer.accepted (a : WriteAnswer) (data : Bytes) : Bytes :=
  match a with
  | accepts k => data.take k
  | fail _ => []

theorem WriteAnswer.accepted_isPrefix (a : WriteAnswer) (data : Bytes) :
    a.accepted data <+: data := by
  cases a with
  | accepts k => exact List.take_prefix k data
  | fail e => exact List.nil_prefix

/-- The answers of a socket whose peer stays connected and which has no error. -/
def Answer.Benign : Answer → Prop
  | ready _ => True
  | fail e => e = .EAGAIN ∨ e = .EINTR
  | closed => False

instance : DecidablePred Answer.Benign := fun a =>
  match a with
  | .ready _ => inferInstanceAs (Decidable True)
  | .fail e => inferInstanceAs (Decidable (e = .EAGAIN ∨ e = .EINTR))
  | .closed => inferInstanceAs (Decidable False)

end Httpoll.Native
