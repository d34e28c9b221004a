import Httpoll.Spec.WebsocketBounds

/-!
# The length of a frame

`Read` gets the length out of the frame header by itself. The 7-bit and the 16-bit form come
out right. For the 64-bit form it loads the two halves of the length and puts the first one,
which is the high half on the wire, into the low bits.

## Key results

- `decodeHeader_parts`: what a decoder of the protocol has read, by the length form
- `readHeader_ok`, `readHeader_fault`: the frame header as a part of `readFrame`
- `readHeader_iff`: when `Read` gets the length and the place of the payload right
-/

namespace Httpoll.Native.WebsocketConnection

open CheckedBuffer Rfc6455

/-- `payload_len` and `offset` as `Read` has them at the payload, the mask copied. -/
def readHeader (buf : Bytes) : Except Fault (Nat × Nat) := do
  let header ← load buf 0 2
  let b1 := (byteAt header 1).toNat
  let (payloadLen, offset) ← payloadLength buf (b1 % 128)
  if 128 ≤ b1 then do
    let _ ← load buf offset 4
    .ok (payloadLen, offset + 4)
  else .ok (payloadLen, offset)

/-- The bytes of the mask. -/
def maskSize (buf : Bytes) : Nat := if 128 ≤ (byteAt buf 1).toNat then 4 else 0

/-! ## What a decoder has read -/

/-- The two bytes of a header, its extended length and its mask, as a decoder of the protocol
    has read them: `before` is what comes before the mask. -/
theorem decodeHeader_parts {buf rest : Bytes} {h : FrameHeader}
    (hdec : decodeHeader buf = some (h, rest)) :
    2 ≤ buf.length ∧ h.fin = decide (128 ≤ (byteAt buf 0).toNat) ∧
      h.opcode.val = (byteAt buf 0).toNat % 16 ∧
      h.mask.isSome = decide (128 ≤ (byteAt buf 1).toNat) ∧
      ∃ before, buf = before ++ ((h.mask.map MaskKey.toList).getD [] ++ rest) ∧
        ((byteAt buf 1).toNat % 128 = 126 ∧ before.length = 4 ∧
            h.payloadLength = beValue ((buf.drop 2).take 2) ∨
          (byteAt buf 1).toNat % 128 = 127 ∧ before.length = 10 ∧
            h.payloadLength = beValue ((buf.drop 2).take 8) ∨
          (byteAt buf 1).toNat % 128 ≠ 126 ∧ (byteAt buf 1).toNat % 128 ≠ 127 ∧
            before.length = 2 ∧ h.payloadLength = (byteAt buf 1).toNat % 128) := by
  obtain ⟨b0, b1, tail, ext, rfl, hlength, hmask, hfin, hopcode⟩ := decodeHeader_eq_some hdec
  obtain ⟨hmasked, rfl⟩ := takeMask_eq_some hmask
  have h1 : byteAt (b0 :: b1 :: tail) 1 = b1 := rfl
  rw [h1]
  refine ⟨by simp, hfin, hopcode, hmasked, ?_⟩
  unfold takeLength at hlength
  -- the long forms take two or eight more bytes off, the 7-bit form none
  have hlong : ∀ k, k ≤ tail.length → tail = tail.take k ++
      ((h.mask.map MaskKey.toList).getD [] ++ rest) → (b0 :: b1 :: tail.take k).length = k + 2 ∧
        b0 :: b1 :: tail = b0 :: b1 :: tail.take k ++
          ((h.mask.map MaskKey.toList).getD [] ++ rest) := by
    intro k hk htail
    constructor
    · simp only [List.length_cons, List.length_take]
      omega
    · rw [List.cons_append, List.cons_append, ← htail]
  by_cases h126 : b1.toNat % 128 = 126
  · rw [if_pos h126] at hlength
    obtain ⟨hle, hn, htail⟩ := takeNat_eq_some hlength
    obtain ⟨hbefore, hbuf⟩ := hlong 2 hle htail
    exact ⟨_, hbuf, .inl ⟨h126, hbefore, hn⟩⟩
  rw [if_neg h126] at hlength
  by_cases h127 : b1.toNat % 128 = 127
  · rw [if_pos h127] at hlength
    obtain ⟨hle, hn, htail⟩ := takeNat_eq_some hlength
    obtain ⟨hbefore, hbuf⟩ := hlong 8 hle htail
    exact ⟨_, hbuf, .inr (.inl ⟨h127, hbefore, hn⟩)⟩
  · rw [if_neg h127, Option.some.injEq, Prod.mk.injEq] at hlength
    obtain ⟨hn, rfl⟩ := hlength
    exact ⟨[b0, b1], rfl, .inr (.inr ⟨h126, h127, rfl, hn.symm⟩)⟩

/-! ## What `Read` gets out of the header -/

theorem readHeader_ok {buf : Bytes} {n offset : Nat} (h : 2 ≤ buf.length)
    (hlen : payloadLength buf ((byteAt buf 1).toNat % 128) = .ok (n, offset))
    (hmask : offset + maskSize buf ≤ buf.length) :
    readHeader buf = .ok (n, offset + maskSize buf) := by
  obtain ⟨header, hheader, -, h1⟩ := load_header h
  unfold maskSize at hmask ⊢
  simp only [readHeader, hheader, h1, hlen, bind, Except.bind]
  by_cases hm : 128 ≤ (byteAt buf 1).toNat
  · simp only [hm, if_true] at hmask ⊢
    rw [load_of_le hmask]
  · simp only [hm, if_false, Nat.add_zero]

theorem readHeader_fault {buf : Bytes} {e : Fault} (h : 2 ≤ buf.length)
    (hlen : payloadLength buf ((byteAt buf 1).toNat % 128) = .error e) :
    readHeader buf = .error e := by
  obtain ⟨header, hheader, -, h1⟩ := load_header h
  simp only [readHeader, hheader, h1, hlen, bind, Except.bind]

/-- `Read` goes on with these values: it takes the payload from behind the mask. -/
theorem readFrame_of_readHeader {buf : Bytes} {n offset : Nat} (h : 2 ≤ buf.length)
    (hhead : readHeader buf = .ok (n, offset)) :
    ∃ before, offset = before + maskSize buf ∧
      readFrame buf = (readPayload buf (128 ≤ (byteAt buf 1).toNat) before n).map fun payload =>
        { fin := 128 ≤ (byteAt buf 0).toNat
          opcode := Fin.ofNat 16 (byteAt buf 0).toNat
          payload } := by
  cases hlen : payloadLength buf ((byteAt buf 1).toNat % 128) with
  | error e =>
    rw [readHeader_fault h hlen] at hhead
    cases hhead
  | ok p =>
    obtain ⟨n', before⟩ := p
    obtain ⟨header, hheader, -, h1⟩ := load_header h
    simp only [readHeader, hheader, h1, hlen, bind, Except.bind] at hhead
    have hvalues : n' = n ∧ offset = before + maskSize buf := by
      unfold maskSize
      by_cases hm : 128 ≤ (byteAt buf 1).toNat
      · simp only [hm, if_true] at hhead ⊢
        cases hload : load buf before 4 with
        | error e => simp only [hload] at hhead; cases hhead
        | ok mask =>
          simp only [hload, Except.ok.injEq, Prod.mk.injEq] at hhead
          exact ⟨hhead.1, hhead.2.symm⟩
      · simp only [hm, if_false, Except.ok.injEq, Prod.mk.injEq] at hhead ⊢
        exact ⟨hhead.1, hhead.2.symm⟩
    obtain ⟨rfl, hoffset⟩ := hvalues
    exact ⟨before, hoffset, readFrame_of_length h hlen⟩

/-- A fault in the header is one of `Read`. -/
theorem readFrame_of_readHeader_fault {buf : Bytes} {e : Fault}
    (hhead : readHeader buf = .error e) : readFrame buf = .error e := by
  cases hload : load buf 0 2 with
  | error e' =>
    simp only [readHeader, readFrame, hload, bind, Except.bind, Except.error.injEq] at hhead ⊢
    exact hhead
  | ok header =>
    simp only [readHeader, readFrame, hload, bind, Except.bind] at hhead ⊢
    cases hlen : payloadLength buf ((byteAt header 1).toNat % 128) with
    | error e' =>
      simp only [hlen, Except.error.injEq] at hhead ⊢
      exact hhead
    | ok p =>
      by_cases hm : 128 ≤ (byteAt header 1).toNat
      · simp only [hlen, hm, if_true] at hhead
        cases hmask : load buf p.2 4 with
        | error e' =>
          simp only [hmask, Except.error.injEq] at hhead
          simp only [hm, decide_true, readPayload, if_true, hmask, bind, Except.bind, hhead]
        | ok mask => simp only [hmask] at hhead; cases hhead
      · simp only [hlen, hm, if_false] at hhead
        cases hhead

/-- The two halves of a length of 64 bits. -/
theorem beValue_halves {bs : Bytes} (h : bs.length = 8) :
    beValue bs = beValue (bs.take 4) * 2 ^ 32 + beValue (bs.drop 4) ∧
      beValue (bs.take 4) = beValue bs / 2 ^ 32 ∧ beValue (bs.drop 4) = beValue bs % 2 ^ 32 := by
  have hdrop : (bs.drop 4).length = 4 := by rw [List.length_drop]; omega
  have hlow := beValue_lt (bs.drop 4)
  have hsum := beValue_append (bs.take 4) (bs.drop 4)
  rw [List.take_append_drop, hdrop] at hsum
  rw [hdrop] at hlow
  omega

/-- **The length and the place of the payload.** For every buffer that begins with a complete
    frame header, `Read` gets both right in the 7-bit and the 16-bit form. In the 64-bit form
    it does so only when the two halves of the length are the same, and the buffer holds
    fourteen bytes. -/
theorem readHeader_iff {buf rest : Bytes} {h : FrameHeader}
    (hdec : decodeHeader buf = some (h, rest)) :
    readHeader buf = .ok (h.payloadLength, buf.length - rest.length) ↔
      ((byteAt buf 1).toNat % 128 = 127 →
        h.payloadLength / 2 ^ 32 = h.payloadLength % 2 ^ 32 ∧ 14 ≤ buf.length) := by
  obtain ⟨h2, -, -, hmask, before, hbuf, hform⟩ := decodeHeader_parts hdec
  have hsize : ((h.mask.map MaskKey.toList).getD []).length = maskSize buf := by
    unfold maskSize
    cases hm : h.mask with
    | none => simp [show ¬ 128 ≤ (byteAt buf 1).toNat by simpa [hm] using hmask]
    | some key => simp [show 128 ≤ (byteAt buf 1).toNat by simpa [hm] using hmask, MaskKey.toList]
  have hlen := congrArg List.length hbuf
  simp only [List.length_append, hsize] at hlen
  have hplace : buf.length - rest.length = before.length + maskSize buf := by omega
  rw [hplace]
  rcases hform with ⟨h126, hbefore, hn⟩ | ⟨h127, hbefore, hn⟩ | ⟨h126, h127, hbefore, hn⟩
  · -- the 16-bit form
    have h4 : 4 ≤ buf.length := by omega
    have hlength := h126 ▸ payloadLength_middle h4
    simp only [h126, show ¬ (126 : Nat) = 127 from by decide, false_implies, iff_true]
    rw [readHeader_ok h2 hlength (by omega), hn, hbefore]
  · simp only [h127, true_implies]
    rcases Nat.lt_or_ge buf.length 14 with hlt | hge
    · -- the second load leaves the buffer
      obtain ⟨i, hi⟩ := payloadLength_fault (.inr ⟨h127, hlt⟩)
      rw [readHeader_fault h2 hi]
      simp only [reduceCtorEq, false_iff]
      omega
    · have hbytes : ((buf.drop 2).take 8).length = 8 := by
        rw [List.length_take, List.length_drop]
        omega
      have hlow : (buf.drop 2).take 4 = ((buf.drop 2).take 8).take 4 := by
        rw [List.take_take]
        rfl
      have hhigh : (buf.drop 6).take 4 = ((buf.drop 2).take 8).drop 4 := by
        rw [List.drop_take, List.drop_drop]
      obtain ⟨hvalue, hdiv, hmod⟩ := beValue_halves hbytes
      rw [readHeader_ok h2 (h127 ▸ payloadLength_long hge) (by omega), hlow, hhigh, hbefore, hn]
      simp only [Except.ok.injEq, Prod.mk.injEq, and_true, hge]
      omega
  · -- the 7-bit form
    simp only [h127, false_implies, iff_true]
    rw [readHeader_ok h2 (payloadLength_short h126 h127) (by omega), hn, hbefore]

/-- 256 bytes of payload, in the 16-bit form. -/
theorem readHeader_middle :
    ∃ (h : FrameHeader) (rest : Bytes), decodeHeader [0x82, 126, 1, 0] = some (h, rest) ∧
      h.payloadLength = 256 ∧
      readHeader [0x82, 126, 1, 0] =
        .ok (h.payloadLength, ([0x82, 126, 1, 0] : Bytes).length - rest.length) := by
  refine ⟨{ fin := true, rsv := 0, opcode := 2, mask := none, payloadLength := 256 }, [], ?_⟩
  have hdec : decodeHeader [0x82, 126, 1, 0] = some
      ({ fin := true, rsv := 0, opcode := 2, mask := none, payloadLength := 256 }, []) := by
    decide
  exact ⟨hdec, rfl, (readHeader_iff hdec).mpr (by decide)⟩

/-- The header of 65536 bytes of payload. -/
private def longHeader : Bytes := [0x82, 127, 0, 0, 0, 0, 0, 1, 0, 0]

/-- 65536 bytes of payload, of which the first four are in the buffer. -/
theorem readHeader_swaps_halves :
    ∃ (h : FrameHeader) (rest : Bytes),
      decodeHeader (longHeader ++ [1, 2, 3, 4]) = some (h, rest) ∧ h.payloadLength = 65536 ∧
      readHeader (longHeader ++ [1, 2, 3, 4]) = .ok (65536 * 2 ^ 32, 10) :=
  ⟨{ fin := true, rsv := 0, opcode := 2, mask := none, payloadLength := 65536 }, [1, 2, 3, 4],
    by decide, rfl, by decide⟩

end Httpoll.Native.WebsocketConnection
