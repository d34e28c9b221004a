import Mathlib.Algebra.Group.Nat.Defs
import Mathlib.Data.List.Basic

/-!
# Base64

The encoding of RFC 4648, section 4: three bytes make a quantum of 24 bits, which is written as
four characters of six bits each. A last quantum that is not complete is filled up with zero
bits, and the characters that hold none of its bits are replaced by the pad.

## Key results

- `length_encode`: how long the encoding of a text is
- `decode_encode`: an encoded text reads back
-/

namespace Base64

/-- The characters for the values 0 to 63. -/
def alphabet : List UInt8 :=
  "ABCDEFGHIJKLMNOPQRSTUVWXYZabcdefghijklmnopqrstuvwxyz0123456789+/".toList.map Char.toUInt8

/-- What completes the last quantum. -/
def pad : UInt8 := '='.toUInt8

/-- The character for a value of six bits. -/
def char (v : Nat) : UInt8 := alphabet.getD v pad

/-- The value that a character of the alphabet stands for. -/
def value (c : UInt8) : Option Nat := alphabet.idxOf? c

/-! ## Encoding -/

/-- The 24 bits of three bytes. -/
def quantum (a b c : UInt8) : Nat := a.toNat * 2 ^ 16 + b.toNat * 2 ^ 8 + c.toNat

/-- The four characters for three bytes. -/
def chars (a b c : UInt8) : List UInt8 :=
  [char (quantum a b c / 2 ^ 18), char (quantum a b c / 2 ^ 12 % 2 ^ 6),
    char (quantum a b c / 2 ^ 6 % 2 ^ 6), char (quantum a b c % 2 ^ 6)]

/-- The characters that hold bits of the text. -/
def encodeBits : List UInt8 → List UInt8
  | a :: b :: c :: rest => chars a b c ++ encodeBits rest
  | [a, b] => (chars a b 0).take 3
  | [a] => (chars a 0 0).take 2
  | [] => []

/-- How many pads complete the last quantum of a text of `n` bytes. -/
def padding (n : Nat) : Nat := (3 - n % 3) % 3

/-- The encoding of a text. -/
def encode (bytes : List UInt8) : List UInt8 :=
  encodeBits bytes ++ List.replicate (padding bytes.length) pad

/-! ## Decoding -/

/-- The 24 bits that four characters stand for. -/
def quantumOf (w x y z : UInt8) : Option Nat := do
  let w ← value w
  let x ← value x
  let y ← value y
  let z ← value z
  return w * 2 ^ 18 + x * 2 ^ 12 + y * 2 ^ 6 + z

/-- The last quantum, with one or two pads. The bits that they stand for have to be zero. -/
def decodeLast (w x y : UInt8) : Option (List UInt8) :=
  if y = pad then do
    let n ← quantumOf w x (char 0) (char 0)
    if n % 2 ^ 16 = 0 then return [UInt8.ofNat (n / 2 ^ 16)] else none
  else do
    let n ← quantumOf w x y (char 0)
    if n % 2 ^ 8 = 0 then return [UInt8.ofNat (n / 2 ^ 16), UInt8.ofNat (n / 2 ^ 8)] else none

/-- The text that was encoded. -/
def decode : List UInt8 → Option (List UInt8)
  | [] => some []
  | w :: x :: y :: z :: rest =>
    if rest = [] ∧ z = pad then decodeLast w x y
    else do
      let n ← quantumOf w x y z
      let bytes ← decode rest
      return UInt8.ofNat (n / 2 ^ 16) :: UInt8.ofNat (n / 2 ^ 8) :: UInt8.ofNat n :: bytes
  | _ => none

/-! ## The alphabet -/

theorem value_char {v : Nat} (h : v < 64) : value (char v) = some v := by
  revert h
  revert v
  decide

/-- The pad is not in the alphabet. -/
theorem char_ne_pad {v : Nat} (h : v < 64) : char v ≠ pad := by
  intro heq
  have hvalue := value_char h
  have hpad : value pad = none := by decide
  rw [heq, hpad] at hvalue
  cases hvalue

/-! ## Quanta -/

theorem quantum_lt (a b c : UInt8) : quantum a b c < 2 ^ 24 := by
  have ha := a.toNat_lt
  have hb := b.toNat_lt
  have hc := c.toNat_lt
  unfold quantum
  omega

/-- The characters of a quantum stand for its bits. -/
theorem quantumOf_chars {n : Nat} (h : n < 2 ^ 24) :
    quantumOf (char (n / 2 ^ 18)) (char (n / 2 ^ 12 % 2 ^ 6)) (char (n / 2 ^ 6 % 2 ^ 6))
      (char (n % 2 ^ 6)) = some n := by
  have hw := value_char (show n / 2 ^ 18 < 64 by omega)
  have hx := value_char (show n / 2 ^ 12 % 2 ^ 6 < 64 by omega)
  have hy := value_char (show n / 2 ^ 6 % 2 ^ 6 < 64 by omega)
  have hz := value_char (show n % 2 ^ 6 < 64 by omega)
  simp only [quantumOf, hw, hx, hy, hz, Option.bind_eq_bind, Option.bind_some, Option.pure_def,
    Option.some.injEq]
  omega

private theorem ofNat_eq {n : Nat} {a : UInt8} (h : n % 2 ^ 8 = a.toNat) : UInt8.ofNat n = a := by
  apply UInt8.toNat_inj.mp
  rw [UInt8.toNat_ofNat', h]

/-- The bytes of a quantum. -/
theorem ofNat_quantum (a b c : UInt8) :
    UInt8.ofNat (quantum a b c / 2 ^ 16) = a ∧ UInt8.ofNat (quantum a b c / 2 ^ 8) = b ∧
      UInt8.ofNat (quantum a b c) = c := by
  have ha := a.toNat_lt
  have hb := b.toNat_lt
  have hc := c.toNat_lt
  unfold quantum
  exact ⟨ofNat_eq (by omega), ofNat_eq (by omega), ofNat_eq (by omega)⟩

/-! ## Round trip -/

/-- A complete quantum in front. -/
theorem encode_cons (a b c : UInt8) (rest : List UInt8) :
    encode (a :: b :: c :: rest) = chars a b c ++ encode rest := by
  have hpadding : padding (a :: b :: c :: rest).length = padding rest.length := by
    simp only [padding, List.length_cons]
    omega
  rw [encode, hpadding, encodeBits, List.append_assoc, encode]

theorem mem_encode {bytes : List UInt8} {c : UInt8} (h : c ∈ encode bytes) :
    c ∈ pad :: alphabet := by
  have hchar : ∀ v, char v ∈ pad :: alphabet := by
    intro v
    rw [char, List.getD_eq_getElem?_getD]
    cases hv : alphabet[v]? with
    | none => exact List.mem_cons_self
    | some c => exact List.mem_cons_of_mem _ (List.mem_of_getElem? hv)
  have hchars : ∀ a b c, ∀ x ∈ chars a b c, x ∈ pad :: alphabet := by
    intro a b c x hx
    simp only [chars, List.mem_cons, List.not_mem_nil, or_false] at hx
    rcases hx with rfl | rfl | rfl | rfl <;> exact hchar _
  rcases List.mem_append.mp h with h | h
  · induction bytes using encodeBits.induct with
    | case1 a b c' rest ih =>
      rcases List.mem_append.mp h with h | h
      · exact hchars a b c' c h
      · exact ih (List.mem_append_left _ h) h
    | case2 a b => exact hchars a b 0 c (List.mem_of_mem_take h)
    | case3 a => exact hchars a 0 0 c (List.mem_of_mem_take h)
    | case4 => exact absurd h List.not_mem_nil
  -- the padding at the end
  · rw [(List.mem_replicate.mp h).2]
    exact List.mem_cons_self

theorem length_encode (bytes : List UInt8) :
    (encode bytes).length = (bytes.length + 2) / 3 * 4 := by
  induction bytes using encodeBits.induct with
  | case1 a b c rest ih =>
    rw [encode_cons, List.length_append, ih]
    simp only [chars, List.length_cons, List.length_nil]
    omega
  | case2 a b => simp [encode, encodeBits, chars, padding]
  | case3 a => simp [encode, encodeBits, chars, padding]
  | case4 => rfl

/-- A pad at the end leads to the last quantum. -/
theorem decode_pad (w x y : UInt8) : decode [w, x, y, pad] = decodeLast w x y := by
  simp only [decode, and_self, if_true]

theorem decodeLast_one {w x : UInt8} {n : Nat}
    (hquantum : quantumOf w x (char 0) (char 0) = some n) (hzero : n % 2 ^ 16 = 0) :
    decodeLast w x pad = some [UInt8.ofNat (n / 2 ^ 16)] := by
  simp only [decodeLast, if_true, hquantum, hzero, Option.bind_eq_bind, Option.bind_some,
    Option.pure_def]

theorem decodeLast_two {w x y : UInt8} {n : Nat} (hy : y ≠ pad)
    (hquantum : quantumOf w x y (char 0) = some n) (hzero : n % 2 ^ 8 = 0) :
    decodeLast w x y = some [UInt8.ofNat (n / 2 ^ 16), UInt8.ofNat (n / 2 ^ 8)] := by
  simp only [decodeLast, hy, if_false, if_true, hquantum, hzero, Option.bind_eq_bind,
    Option.bind_some, Option.pure_def]

/-- **Round trip.** -/
theorem decode_encode (bytes : List UInt8) : decode (encode bytes) = some bytes := by
  induction bytes using encodeBits.induct with
  | case1 a b c rest ih =>
    have hquantum := quantumOf_chars (quantum_lt a b c)
    obtain ⟨ha, hb, hc⟩ := ofNat_quantum a b c
    have hz : char (quantum a b c % 2 ^ 6) ≠ pad := char_ne_pad (by omega)
    rw [encode_cons, chars]
    simp only [List.cons_append, List.nil_append, decode, hz, and_false, if_false, hquantum, ih,
      Option.bind_eq_bind, Option.bind_some, Option.pure_def, ha, hb, hc]
  | case2 a b =>
    -- the last character would hold zero bits only
    have hquantum := quantumOf_chars (quantum_lt a b 0)
    obtain ⟨ha, hb, -⟩ := ofNat_quantum a b 0
    have hzero : quantum a b 0 % 2 ^ 8 = 0 := by
      simp only [quantum, UInt8.toNat_zero]
      omega
    have hlast : quantum a b 0 % 2 ^ 6 = 0 := by omega
    rw [hlast] at hquantum
    have hy : char (quantum a b 0 / 2 ^ 6 % 2 ^ 6) ≠ pad := char_ne_pad (by omega)
    have hencode : encode [a, b] = [char (quantum a b 0 / 2 ^ 18),
      char (quantum a b 0 / 2 ^ 12 % 2 ^ 6), char (quantum a b 0 / 2 ^ 6 % 2 ^ 6), pad] := rfl
    rw [hencode, decode_pad, decodeLast_two hy hquantum hzero, ha, hb]
  | case3 a =>
    have hquantum := quantumOf_chars (quantum_lt a 0 0)
    obtain ⟨ha, -, -⟩ := ofNat_quantum a 0 0
    have hzero : quantum a 0 0 % 2 ^ 16 = 0 := by
      simp only [quantum, UInt8.toNat_zero]
      omega
    have hthird : quantum a 0 0 / 2 ^ 6 % 2 ^ 6 = 0 := by omega
    have hlast : quantum a 0 0 % 2 ^ 6 = 0 := by omega
    rw [hthird, hlast] at hquantum
    have hencode : encode [a] = [char (quantum a 0 0 / 2 ^ 18),
      char (quantum a 0 0 / 2 ^ 12 % 2 ^ 6), pad, pad] := rfl
    rw [hencode, decode_pad, decodeLast_one hquantum hzero, ha]
  | case4 => rfl

example : encode ("foob".toList.map Char.toUInt8) = "Zm9vYg==".toList.map Char.toUInt8 := by decide

end Base64
