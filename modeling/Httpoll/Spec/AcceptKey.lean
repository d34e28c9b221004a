import Httpoll.ForStd.Rfc6455
import Httpoll.Native.WebsocketConnection

/-!
# The accept key

`base64_encode` against the encoding of RFC 4648, and `GetWsAcceptByKey` against the header
value of RFC 6455. The digest has 20 bytes, so the last group of the encoder is not complete.

## Key results

- `encodeGroup_written`: one round of the encoder writes the characters of one group
- `base64Encode_fits`: with room for the expected length, `base64_encode` writes the encoding
  and a NUL behind it
- `getWsAcceptByKey_eq`: the accept key
-/

namespace Httpoll.Native

open CheckedBuffer

/-! ## Characters -/

/-- The table of the source is the alphabet. -/
theorem get_b64 {v : Nat} (h : v < 64) : get b64 v = .ok (Base64.char v) := by
  revert h
  revert v
  decide

/-- The indices into the table, as parts of the 24 bits of a group. -/
theorem indices_eq (a b c : UInt8) :
    a.toNat >>> 2 = Base64.quantum a b c / 2 ^ 18 ∧
      (a.toNat &&& 3) <<< 4 ||| b.toNat >>> 4 = Base64.quantum a b c / 2 ^ 12 % 2 ^ 6 ∧
      (b.toNat &&& 15) <<< 2 ||| c.toNat >>> 6 = Base64.quantum a b c / 2 ^ 6 % 2 ^ 6 ∧
      c.toNat &&& 63 = Base64.quantum a b c % 2 ^ 6 := by
  have ha := a.toNat_lt
  have hb := b.toNat_lt
  have hc := c.toNat_lt
  have ha3 : a.toNat &&& 3 = a.toNat % 2 ^ 2 := Nat.and_two_pow_sub_one_eq_mod _ 2
  have hb15 : b.toNat &&& 15 = b.toNat % 2 ^ 4 := Nat.and_two_pow_sub_one_eq_mod _ 4
  have hc63 : c.toNat &&& 63 = c.toNat % 2 ^ 6 := Nat.and_two_pow_sub_one_eq_mod _ 6
  have hhigh (n : Nat) {m k : Nat} (hm : m < 2 ^ k) : n <<< k ||| m = n * 2 ^ k + m := by
    rw [← Nat.shiftLeft_add_eq_or_of_lt hm, Nat.shiftLeft_eq]
  have hb4 : b.toNat >>> 4 < 2 ^ 4 := by
    rw [Nat.shiftRight_eq_div_pow]
    omega
  have hc6 : c.toNat >>> 6 < 2 ^ 2 := by
    rw [Nat.shiftRight_eq_div_pow]
    omega
  rw [hhigh _ hb4, hhigh _ hc6, ha3, hb15, hc63]
  simp only [Nat.shiftRight_eq_div_pow, Base64.quantum]
  refine ⟨?_, ?_, ?_, ?_⟩
  · omega
  · omega
  · omega
  · omega

/-! ## The output -/

/-- A buffer and the position in it after `out` has been written from its start. -/
def written (dst out : Bytes) : Bytes × Nat := (out ++ dst.drop out.length, out.length)

theorem putChar_written {dst out : Bytes} (c : UInt8) (h : out.length < dst.length) :
    putChar (written dst out) c = .ok (written dst (out ++ [c])) := by
  simp only [putChar, written, set_append c h, bind, Except.bind, List.length_append,
    List.length_singleton]

theorem putB64_written {dst out : Bytes} {v : Nat} (hv : v < 64) (h : out.length < dst.length) :
    putB64 (written dst out) v = .ok (written dst (out ++ [Base64.char v])) := by
  simp only [putB64, get_b64 hv, bind, Except.bind, putChar_written _ h]

/-! ## The encoder -/

/-- How many characters hold bits of a group of `n` bytes. -/
def groupChars (n : Nat) : Nat := min (n + 1) 4

/-- What a round writes, by what it reads: the bytes behind the end count as zero. -/
private theorem encodeGroup_reads {src dst out : Bytes} {i n : Nat} {a b c : UInt8}
    (hn : i + n = src.length) (hpos : 0 < n) (ha : get src i = .ok a)
    (hb : byteOrZero src (i + 1) = .ok b) (hc : byteOrZero src (i + 2) = .ok c)
    (hroom : out.length + groupChars n ≤ dst.length) :
    encodeGroup src i (written dst out) =
      .ok (written dst (out ++ (Base64.chars a b c).take (groupChars n))) := by
  obtain ⟨h₁, h₂, h₃, h₄⟩ := indices_eq a b c
  have hlt := Base64.quantum_lt a b c
  unfold groupChars at hroom ⊢
  -- two characters are written in any case
  have hput₁ : putB64 (written dst out) (Base64.quantum a b c / 2 ^ 18) = _ :=
    putB64_written (by omega) (by omega)
  have hput₂ : putB64 (written dst (out ++ [Base64.char (Base64.quantum a b c / 2 ^ 18)]))
      (Base64.quantum a b c / 2 ^ 12 % 2 ^ 6) = _ :=
    putB64_written (by omega) (by simp; omega)
  simp only [encodeGroup, ha, hb, hc, bind, Except.bind, h₁, h₂, h₃, h₄, hput₁, hput₂,
    putB64Before, Base64.chars]
  by_cases hn₁ : i + 1 < src.length
  · rw [if_pos hn₁, putB64_written (by omega) (by simp; omega)]
    by_cases hn₂ : i + 2 < src.length
    · have hall : min (n + 1) 4 = 4 := by omega
      simp only [hn₂, if_true]
      rw [putB64_written (by omega) (by simp; omega)]
      simp [hall]
    · have hthree : min (n + 1) 4 = 3 := by omega
      simp [hn₂, hthree]
  · have htwo : min (n + 1) 4 = 2 := by omega
    have hn₂ : ¬ i + 2 < src.length := by omega
    simp [hn₁, hn₂, htwo]

private theorem byteOrZero_append {pre rest : Bytes} {i : Nat} {a : UInt8}
    (h : rest[i]? = some a) : byteOrZero (pre ++ rest) (pre.length + i) = .ok a := by
  have hlt : i < rest.length := by
    by_contra hge
    rw [List.getElem?_eq_none (by omega)] at h
    cases h
  rw [byteOrZero, if_neg (by rw [List.length_append]; omega), get_append h]

private theorem byteOrZero_end {pre rest : Bytes} {i : Nat} (h : rest.length ≤ i) :
    byteOrZero (pre ++ rest) (pre.length + i) = .ok 0 := by
  rw [byteOrZero, if_pos (by rw [List.length_append]; omega)]

/-- One round writes the characters of the next three bytes, or of those that are left. -/
theorem encodeGroup_written {dst out : Bytes} (pre rest : Bytes) (hne : rest ≠ [])
    (hroom : out.length + (Base64.encodeBits (rest.take 3)).length ≤ dst.length) :
    encodeGroup (pre ++ rest) pre.length (written dst out) =
      .ok (written dst (out ++ Base64.encodeBits (rest.take 3))) := by
  match rest, hne with
  -- the last group may have one byte or two; the bytes that are missing are read as 0
  | [a], _ =>
    exact encodeGroup_reads (by simp) Nat.one_pos (get_append (i := 0) rfl)
      (byteOrZero_end (by simp)) (byteOrZero_end (by simp)) hroom
  | [a, b], _ =>
    exact encodeGroup_reads (by simp) Nat.two_pos (get_append (i := 0) rfl)
      (byteOrZero_append rfl) (byteOrZero_end (by simp)) hroom
  -- a whole group has four characters
  | a :: b :: c :: rest, _ =>
    have hall : groupChars (rest.length + 3) = 4 := by
      unfold groupChars
      omega
    have hroom' : out.length + groupChars (rest.length + 3) ≤ dst.length := by
      rw [hall]
      exact hroom
    have hgroup : encodeGroup (pre ++ a :: b :: c :: rest) pre.length (written dst out) = _ :=
      encodeGroup_reads (by simp) (by omega) (get_append (i := 0) rfl) (byteOrZero_append rfl)
        (byteOrZero_append rfl) hroom'
    rw [hall] at hgroup
    exact hgroup

theorem encodeBody_next {src : Bytes} {i : Nat} {out out' : Bytes × Nat} (hi : i < src.length)
    (hgroup : encodeGroup src i out = .ok out') :
    encodeBody src (i, out) = some (.next (i + 3, out')) := by
  simp only [encodeBody, hi, if_true, hgroup]
  rfl

theorem encodeBody_done {src : Bytes} {i : Nat} (out : Bytes × Nat) (hi : src.length ≤ i) :
    encodeBody src (i, out) = some (.done (.ok out)) := by
  simp only [encodeBody, Nat.not_lt.mpr hi, if_false]

/-- The `for` loop writes the characters that hold bits of the source. -/
theorem encodeBody_returns (dst rest pre out : Bytes)
    (hroom : out.length + (Base64.encodeBits rest).length ≤ dst.length) :
    Loop.Returns (encodeBody (pre ++ rest)) (pre.length, written dst out)
      (.ok (written dst (out ++ Base64.encodeBits rest))) := by
  -- the induction takes the groups off what is left of the source
  induction rest using Base64.encodeBits.induct generalizing pre out with
  | case1 a b c rest ih =>
    rw [Base64.encodeBits] at hroom ⊢
    rw [List.length_append] at hroom
    have hfits : out.length + (Base64.chars a b c).length ≤ dst.length := by omega
    have hgroup := encodeGroup_written pre (a :: b :: c :: rest) (by simp) hfits
    have hrest := ih (pre ++ [a, b, c]) (out ++ Base64.chars a b c) (by
      rw [List.length_append]
      omega)
    rw [List.append_assoc, List.append_assoc, List.length_append] at hrest
    exact .of_next (encodeBody_next (by simp) hgroup) hrest
  | case2 a b =>
    have hgroup := encodeGroup_written pre [a, b] (by simp) hroom
    exact .of_next (encodeBody_next (by simp) hgroup) (.of_done (encodeBody_done _ (by simp)))
  | case3 a =>
    have hgroup := encodeGroup_written pre [a] (by simp) hroom
    exact .of_next (encodeBody_next (by simp) hgroup) (.of_done (encodeBody_done _ (by simp)))
  | case4 =>
    rw [Base64.encodeBits, List.append_nil, List.append_nil]
    exact .of_done (encodeBody_done _ (Nat.le_refl _))

/-- The loop gets to its end within as many rounds as there are bytes, and one. -/
private theorem encodeBody_run (src dst : Bytes)
    (hroom : (Base64.encodeBits src).length ≤ dst.length) :
    Loop.run (encodeBody src) (src.length + 1) (0, dst, 0) =
      some (.ok (written dst (Base64.encodeBits src))) := by
  have hreturns := encodeBody_returns dst src [] [] (by rw [List.length_nil]; omega)
  -- every round moves on in the source
  have hnext : ∀ s s', encodeBody src s = some (.next s') →
      src.length - s'.1 < src.length - s.1 ∨ s' = s := by
    intro s s' hbody
    simp only [encodeBody] at hbody
    split at hbody
    · rename_i hin
      cases hgroup : encodeGroup src s.1 s.2 with
      | error f =>
        rw [hgroup] at hbody
        cases hbody
      | ok out =>
        rw [hgroup] at hbody
        cases hbody
        left
        dsimp only
        omega
    · cases hbody
  exact Loop.run_of_measure_or_stuck (fun s => src.length - s.1) hnext hreturns

/-- The `while` loop completes the last group. -/
private theorem padBody_run (dst : Bytes) (pads : Nat) (out : Bytes)
    (hpads : pads < 4 ∧ (out.length + pads) % 4 = 0) (hroom : out.length + pads ≤ dst.length) :
    Loop.run padBody (pads + 1) (written dst out) =
      some (.ok (written dst (out ++ List.replicate pads Base64.pad))) := by
  induction pads generalizing out with
  | zero =>
    have hend : ¬ out.length % 4 ≠ 0 := by omega
    apply Loop.run_succ_done
    simp [padBody, written, hend]
  | succ pads ih =>
    have hmore : out.length % 4 ≠ 0 := by omega
    have hput : putChar (written dst out) '='.toUInt8 = _ := putChar_written _ (by omega)
    -- the induction hypothesis is about the text with one more pad behind it
    have hrest := ih (out ++ [Base64.pad]) (by simp; omega) (by simp; omega)
    rw [List.append_assoc, List.singleton_append, ← List.replicate_succ] at hrest
    rw [← hrest]
    apply Loop.run_succ_next
    show (if out.length % 4 ≠ 0 then _ else _) = _
    rw [if_pos hmore, hput]
    rfl

/-! ## `base64_encode` -/

/-- **The encoding of RFC 4648.** With room for the expected length, `base64_encode` writes the
    encoding and a NUL behind it, and says how long both are. -/
theorem base64Encode_fits {src dst : Bytes} {dstLen : Option Nat}
    (hlen : ∀ len ∈ dstLen, (src.length + 2) / 3 * 4 + 1 ≤ len)
    (hroom : (src.length + 2) / 3 * 4 + 1 ≤ dst.length) :
    base64Encode src dst dstLen =
      some (.ok {
        ret := -1
        dst := Base64.encode src ++ 0 :: dst.drop ((src.length + 2) / 3 * 4 + 1)
        dstLen := dstLen.map fun _ => (src.length + 2) / 3 * 4 + 1 }) := by
  have hall : ¬ ∃ len ∈ dstLen, len < (src.length + 2) / 3 * 4 + 1 := by
    intro ⟨len, hmem, hlt⟩
    have hle := hlen len hmem
    omega
  -- the characters and the padding make up the encoding, whose length is known
  have hlength := Base64.length_encode src
  have hsplit := hlength
  rw [Base64.encode, List.length_append, List.length_replicate] at hsplit
  have hfour : Base64.padding src.length < 4 := by
    unfold Base64.padding
    omega
  have hpads := padBody_run dst (Base64.padding src.length) (Base64.encodeBits src)
    ⟨hfour, by omega⟩ (by omega)
  rw [← Base64.encode] at hpads
  -- the NUL behind them has room too
  have hput : putChar (written dst (Base64.encode src)) 0 = _ := putChar_written _ (by omega)
  simp only [base64Encode, hall, if_false, encodeBody_run src dst (by omega),
    Loop.run_mono (show Base64.padding src.length + 1 ≤ 4 by omega) hpads, hput, bind, Except.bind]
  simp only [written, List.length_append, List.length_singleton, hlength, List.append_assoc,
    List.singleton_append]

/-! ## `GetWsAcceptByKey` -/

namespace WebsocketConnection

/-- **The accept key.** For every key and every digest of 20 bytes, `GetWsAcceptByKey` returns
    the header value of RFC 6455: the padded encoding of the digest of the key and the GUID, 28
    characters without the NUL, from which the digest reads back. No access is outside of the
    40 bytes of `hash`, whatever they hold before. -/
theorem getWsAcceptByKey_eq (sha1 : Bytes → Vector UInt8 SHA_DIGEST_LENGTH)
    (hash : Vector UInt8 (SHA_DIGEST_LENGTH * 2)) (wsSecKey : Bytes) :
    ∃ accept, getWsAcceptByKey sha1 hash wsSecKey = some (.ok accept) ∧
      accept = Rfc6455.accept (fun text => (sha1 text).toList) wsSecKey ∧
      accept.length = 28 ∧
      Base64.decode accept = some (sha1 (wsSecKey ++ Rfc6455.guid)).toList := by
  have hdigest : (sha1 (wsSecKey ++ acceptSuffix)).toList.length = 20 := Vector.length_toList
  have hhash : hash.toList.length = 40 := Vector.length_toList
  -- a digest of 20 bytes has 28 characters, for which the 40 bytes of the buffer are enough
  have hfits : base64Encode (sha1 (wsSecKey ++ acceptSuffix)).toList hash.toList (some 40) = _ :=
    base64Encode_fits (by simp [hdigest]) (by rw [hdigest, hhash]; decide)
  have hlength := Base64.length_encode (sha1 (wsSecKey ++ acceptSuffix)).toList
  rw [hdigest] at hfits hlength
  refine ⟨Base64.encode (sha1 (wsSecKey ++ acceptSuffix)).toList, ?_, rfl, hlength,
    Base64.decode_encode _⟩
  -- the string is made of the characters up to the NUL
  have hload : load (Base64.encode (sha1 (wsSecKey ++ acceptSuffix)).toList ++
      0 :: hash.toList.drop 29) 0 28 =
      .ok (Base64.encode (sha1 (wsSecKey ++ acceptSuffix)).toList) := by
    rw [load_of_le (by rw [List.length_append, hlength]; omega), List.drop_zero,
      List.take_left' hlength]
  have hexpected : (20 + 2) / 3 * 4 + 1 = 29 := by decide
  rw [hexpected] at hfits
  simp only [getWsAcceptByKey, SHA_DIGEST_LENGTH] at hfits hload ⊢
  simp only [hfits, Option.map_some, Option.getD_some, hload]

/-- The key and the digest of the example in RFC 6455. -/
example :
    getWsAcceptByKey
      (fun _ => #v[0xb3, 0x7a, 0x4f, 0x2c, 0xc0, 0x62, 0x4f, 0x16, 0x90, 0xf6, 0x46, 0x06, 0xcf,
        0x38, 0x59, 0x45, 0xb2, 0xbe, 0xc4, 0xea])
      (.replicate _ 0) (ascii "dGhlIHNhbXBsZSBub25jZQ==") =
      some (.ok (ascii "s3pPLMBiTxaQ9kYGzzhZRbK+xOo=")) := by
  decide +kernel

end WebsocketConnection

end Httpoll.Native
