import Httpoll.ForStd.Rfc6455
import Httpoll.Native.WebsocketConnection

/-!
# Memory safety of `WebsocketConnection::Read`

`Read` trusts the length fields of the frame. Its accesses stay inside the local buffer
exactly when the buffer holds at least as many bytes as these fields announce.

## Key results

- `payloadLength_middle`, `payloadLength_long`: the lengths that `Read` computes
- `readPayload_unmasked`, `readPayload_masked`: the payload that it takes out
- `readFrame_ok_or_fault`: which buffers hold a whole frame for it
- `read_inBounds_iff`: when a `Read` stays in bounds
-/

namespace Httpoll.Native.WebsocketConnection

open CheckedBuffer Rfc6455

/-! ## Byte order -/

theorem ntohs_leValue {bs : Bytes} (h : bs.length = 2) : ntohs (leValue bs) = beValue bs := by
  match bs, h with
  | [a, b], _ =>
    have ha := a.toNat_lt
    have hb := b.toNat_lt
    simp only [leValue, ntohs, beValue, List.foldl_cons, List.foldl_nil]
    omega

private theorem ntohl_bytes {a b c d r : Nat} (ha : a < 256) (hb : b < 256) (hc : c < 256)
    (hd : d < 256) : ntohl (a + 256 * (b + 256 * (c + 256 * (d + 256 * r)))) =
      ((a * 256 + b) * 256 + c) * 256 + d := by
  -- peel the bytes off one by one
  have h8 : (a + 256 * (b + 256 * (c + 256 * (d + 256 * r)))) / 2 ^ 8 =
      b + 256 * (c + 256 * (d + 256 * r)) := by omega
  have h16 : (a + 256 * (b + 256 * (c + 256 * (d + 256 * r)))) / 2 ^ 16 =
      c + 256 * (d + 256 * r) := by omega
  have h24 : (a + 256 * (b + 256 * (c + 256 * (d + 256 * r)))) / 2 ^ 24 = d + 256 * r := by omega
  rw [ntohl, h8, h16, h24]
  simp only [Nat.add_mul_mod_self_left, Nat.mod_eq_of_lt ha, Nat.mod_eq_of_lt hb,
    Nat.mod_eq_of_lt hc, Nat.mod_eq_of_lt hd]
  omega

/-- Of the eight bytes that are loaded, `ntohl` swaps the first four. -/
theorem ntohl_leValue {bs : Bytes} (h : 4 ≤ bs.length) :
    ntohl (leValue bs) = beValue (bs.take 4) := by
  match bs, h with
  | a :: b :: c :: d :: rest, _ =>
    simp only [leValue, ntohl_bytes a.toNat_lt b.toNat_lt c.toNat_lt d.toNat_lt,
      List.take_succ_cons, List.take_zero, beValue, List.foldl_cons, List.foldl_nil, Nat.zero_mul,
      Nat.zero_add]

theorem ntohl_lt (v : Nat) : ntohl v < 2 ^ 32 := by
  unfold ntohl
  omega

/-! ## Lengths -/

theorem payloadLength_short {buf : Bytes} {len7 : Nat} (h126 : len7 ≠ 126) (h127 : len7 ≠ 127) :
    payloadLength buf len7 = .ok (len7, 2) := by
  simp only [payloadLength, h126, h127, if_false]

theorem payloadLength_middle {buf : Bytes} (h : 4 ≤ buf.length) :
    payloadLength buf 126 = .ok (beValue ((buf.drop 2).take 2), 4) := by
  have hlen : ((buf.drop 2).take 2).length = 2 := by
    rw [List.length_take, List.length_drop]; omega
  simp only [payloadLength, if_true, load_of_le (show 2 + 2 ≤ buf.length from h), bind,
    Except.bind, ntohs_leValue hlen]

/-- The two halves of the length come in the wrong order. -/
theorem payloadLength_long {buf : Bytes} (h : 14 ≤ buf.length) :
    payloadLength buf 127 =
      .ok (beValue ((buf.drop 6).take 4) * 2 ^ 32 + beValue ((buf.drop 2).take 4), 10) := by
  have hword : ∀ off, off ≤ 6 →
      ntohl (leValue ((buf.drop off).take 8)) = beValue ((buf.drop off).take 4) := by
    intro off hoff
    rw [ntohl_leValue (by rw [List.length_take, List.length_drop]; omega), List.take_take]
    rfl
  have hlow := ntohl_lt (leValue ((buf.drop 2).take 8))
  rw [hword 2 (by decide)] at hlow
  simp only [payloadLength, show ¬ (127 : Nat) = 126 from by decide, if_true, if_false,
    load_of_le (show 2 + 8 ≤ buf.length by omega), load_of_le (show 6 + 8 ≤ buf.length from h),
    bind, Except.bind, hword 2 (by decide), hword 6 (by decide)]
  rw [← Nat.shiftLeft_add_eq_or_of_lt hlow, Nat.shiftLeft_eq]

/-- A buffer that ends inside the extended length. -/
theorem payloadLength_fault {buf : Bytes} {len7 : Nat}
    (h : len7 = 126 ∧ buf.length < 4 ∨ len7 = 127 ∧ buf.length < 14) :
    ∃ i, payloadLength buf len7 = .error (.outOfBounds i buf.length) := by
  rcases h with ⟨rfl, h⟩ | ⟨rfl, h⟩
  · obtain ⟨i, hi⟩ := load_of_lt buf 2 (n := 2) (by decide) h
    exact ⟨i, by simp only [payloadLength, if_true, hi, bind, Except.bind]⟩
  · simp only [payloadLength, show ¬ (127 : Nat) = 126 from by decide, if_true, if_false]
    rcases Nat.lt_or_ge buf.length 10 with hlt | hge
    · obtain ⟨i, hi⟩ := load_of_lt buf 2 (n := 8) (by decide) hlt
      exact ⟨i, by simp only [hi, bind, Except.bind]⟩
    · -- the second load reaches four bytes past the extended length
      obtain ⟨i, hi⟩ := load_of_lt buf 6 (n := 8) (by decide) h
      exact ⟨i, by simp only [load_of_le (show 2 + 8 ≤ buf.length from hge), hi, bind,
        Except.bind]⟩

/-! ## Payloads -/

theorem readPayload_unmasked {buf : Bytes} {offset n : Nat} (h : offset + n ≤ buf.length) :
    readPayload buf false offset n = .ok ((buf.drop offset).take n) := by
  simp only [readPayload, Bool.false_eq_true, if_false, load_of_le h]

theorem readPayload_masked {buf : Bytes} {offset n : Nat} (h : offset + 4 + n ≤ buf.length) :
    readPayload buf true offset n = .ok (((buf.drop (offset + 4)).take n).mapIdx
      fun i b => b ^^^ byteAt ((buf.drop offset).take 4) (i &&& 3)) := by
  simp only [readPayload, if_true, load_of_le (show offset + 4 ≤ buf.length by omega), bind,
    Except.bind, mapRange_of_le (show offset + 4 + 0 + n ≤ buf.length from h), Nat.add_zero,
    Nat.zero_add]
  -- the range that is appended is the one that was unmasked
  have hpre : (buf.take (offset + 4)).length = offset + 4 := by
    rw [List.length_take]; omega
  generalize hmid : ((buf.drop (offset + 4)).take n).mapIdx
    (fun i b => b ^^^ byteAt ((buf.drop offset).take 4) (i &&& 3)) = mid
  have hmidlen : mid.length = n := by
    rw [← hmid, List.length_mapIdx, List.length_take, List.length_drop]; omega
  rw [load_of_le (by simp only [List.length_append, hpre, hmidlen]; omega), List.append_assoc,
    List.drop_left' hpre, List.take_left' hmidlen]

/-- A buffer that ends inside the mask or the payload. -/
theorem readPayload_fault {buf : Bytes} (masked : Bool) {offset n : Nat}
    (hoff : offset ≤ buf.length) (h : buf.length < offset + (if masked then 4 else 0) + n) :
    ∃ i, readPayload buf masked offset n = .error (.outOfBounds i buf.length) := by
  cases masked with
  | false =>
    simp only [Bool.false_eq_true, if_false] at h
    obtain ⟨i, hi⟩ := load_of_lt buf offset (n := n) (by omega) (by omega)
    exact ⟨i, by simp only [readPayload, Bool.false_eq_true, if_false, hi]⟩
  | true =>
    simp only [if_true] at h
    rcases Nat.lt_or_ge buf.length (offset + 4) with hlt | hge
    · obtain ⟨i, hi⟩ := load_of_lt buf offset (n := 4) (by decide) hlt
      exact ⟨i, by simp only [readPayload, if_true, hi, bind, Except.bind]⟩
    · obtain ⟨i, hi⟩ := mapRange_of_lt
        (fun i b => b ^^^ byteAt ((buf.drop offset).take 4) (i &&& 3)) (offset + 4) (n := n) 0 buf
        (by omega) (by omega)
      exact ⟨i, by simp only [readPayload, if_true, load_of_le hge, hi, bind, Except.bind]⟩

/-! ## Frames -/

/-- The buffer holds all the bytes that its length fields announce: the two bytes of the
    header, the extended length, the mask and the payload. In the long form `Read` loads
    four bytes more than the extended length, and swaps its halves. -/
def FrameFits (buf : Bytes) : Prop :=
  2 ≤ buf.length ∧
    let len7 := (byteAt buf 1).toNat % 128
    let maskLen := if 128 ≤ (byteAt buf 1).toNat then 4 else 0
    if len7 = 126 then 4 + maskLen + beValue ((buf.drop 2).take 2) ≤ buf.length
    else if len7 = 127 then
      14 ≤ buf.length ∧
        10 + maskLen + (beValue ((buf.drop 6).take 4) * 2 ^ 32 +
          beValue ((buf.drop 2).take 4)) ≤ buf.length
    else 2 + maskLen + len7 ≤ buf.length

instance (buf : Bytes) : Decidable (FrameFits buf) := by
  unfold FrameFits
  infer_instance

theorem load_header {buf : Bytes} (h : 2 ≤ buf.length) :
    ∃ header, load buf 0 2 = .ok header ∧ byteAt header 0 = byteAt buf 0 ∧
      byteAt header 1 = byteAt buf 1 := by
  match buf, h with
  | b0 :: b1 :: rest, h => exact ⟨[b0, b1], load_of_le (by omega), rfl, rfl⟩

/-- `Read` once the length is known. -/
theorem readFrame_of_length {buf : Bytes} {n offset : Nat} (h : 2 ≤ buf.length)
    (hlen : payloadLength buf ((byteAt buf 1).toNat % 128) = .ok (n, offset)) :
    readFrame buf = (readPayload buf (128 ≤ (byteAt buf 1).toNat) offset n).map fun payload =>
      { fin := 128 ≤ (byteAt buf 0).toNat
        opcode := Fin.ofNat 16 (byteAt buf 0).toNat
        payload } := by
  obtain ⟨header, hheader, h0, h1⟩ := load_header h
  simp only [readFrame, hheader, h0, h1, hlen, bind, Except.bind]
  cases readPayload buf (128 ≤ (byteAt buf 1).toNat) offset n <;> rfl

theorem readFrame_of_length_fault {buf : Bytes} {e : Fault} (h : 2 ≤ buf.length)
    (hlen : payloadLength buf ((byteAt buf 1).toNat % 128) = .error e) :
    readFrame buf = .error e := by
  obtain ⟨header, hheader, h0, h1⟩ := load_header h
  simp only [readFrame, hheader, h1, hlen, bind, Except.bind]

private theorem readFrame_ok_or_fault_of_length {buf : Bytes} {n offset : Nat}
    (h : 2 ≤ buf.length) (hoff : offset ≤ buf.length)
    (hlen : payloadLength buf ((byteAt buf 1).toNat % 128) = .ok (n, offset)) :
    offset + (if 128 ≤ (byteAt buf 1).toNat then 4 else 0) + n ≤ buf.length ∧
        (∃ frame, readFrame buf = .ok frame) ∨
      ¬ offset + (if 128 ≤ (byteAt buf 1).toNat then 4 else 0) + n ≤ buf.length ∧
        ∃ i, readFrame buf = .error (.outOfBounds i buf.length) := by
  rw [readFrame_of_length h hlen]
  by_cases hmask : 128 ≤ (byteAt buf 1).toNat
  · simp only [hmask, if_true, decide_true]
    rcases Nat.lt_or_ge buf.length (offset + 4 + n) with hlt | hge
    · obtain ⟨i, hi⟩ := readPayload_fault true hoff hlt
      exact .inr ⟨by omega, i, by rw [hi]; rfl⟩
    · exact .inl ⟨hge, _, by rw [readPayload_masked hge]; rfl⟩
  · simp only [hmask, if_false, decide_false, Nat.add_zero]
    rcases Nat.lt_or_ge buf.length (offset + n) with hlt | hge
    · obtain ⟨i, hi⟩ := readPayload_fault false hoff (by simpa using hlt)
      exact .inr ⟨by omega, i, by rw [hi]; rfl⟩
    · exact .inl ⟨hge, _, by rw [readPayload_unmasked hge]; rfl⟩

/-- `Read` gets a frame out of a buffer that holds what it announces, and reaches outside
    of any other. -/
theorem readFrame_ok_or_fault (buf : Bytes) :
    FrameFits buf ∧ (∃ frame, readFrame buf = .ok frame) ∨
      ¬ FrameFits buf ∧ ∃ i, readFrame buf = .error (.outOfBounds i buf.length) := by
  -- the two bytes that every frame begins with
  rcases Nat.lt_or_ge buf.length 2 with hshort | h2
  · obtain ⟨i, hi⟩ := load_of_lt buf 0 (n := 2) (by decide) (by omega)
    refine .inr ⟨fun hfits => absurd hfits.1 (by omega), i, ?_⟩
    simp only [readFrame, hi, bind, Except.bind]
  unfold FrameFits
  simp only [h2, true_and]
  -- a length of two bytes, of eight, or in the second byte itself
  by_cases h126 : (byteAt buf 1).toNat % 128 = 126
  · simp only [h126, if_true]
    rcases Nat.lt_or_ge buf.length 4 with hlt | hge
    · obtain ⟨i, hi⟩ := payloadLength_fault (.inl ⟨h126, hlt⟩)
      exact .inr ⟨by omega, i, readFrame_of_length_fault h2 hi⟩
    · exact readFrame_ok_or_fault_of_length h2 hge (h126 ▸ payloadLength_middle hge)
  by_cases h127 : (byteAt buf 1).toNat % 128 = 127
  · simp only [h127, show ¬ (127 : Nat) = 126 from by decide, if_true, if_false]
    rcases Nat.lt_or_ge buf.length 14 with hlt | hge
    · obtain ⟨i, hi⟩ := payloadLength_fault (.inr ⟨h127, hlt⟩)
      exact .inr ⟨by omega, i, readFrame_of_length_fault h2 hi⟩
    · simp only [show 14 ≤ buf.length from hge, true_and]
      exact readFrame_ok_or_fault_of_length h2 (by omega) (h127 ▸ payloadLength_long hge)
  · simp only [h126, h127, if_false]
    exact readFrame_ok_or_fault_of_length h2 h2 (payloadLength_short h126 h127)

/-! ## `Read` -/

variable {σ : Type}

/-- **Memory safety of `Read`.** Whatever `Connection::Read` left in `buffer_`, the accesses
    are in bounds exactly when that call failed or the buffer holds the frame that its
    length fields announce. -/
theorem read_inBounds_iff (pingPong : Bool) (ws : WebsocketConnection σ) (c : Connection σ)
    (r : ReadResult) (user : σ) :
    (∀ i size, ws.read pingPong c r user ≠ .error (.outOfBounds i size)) ↔
      (c.read r).1 < 0 ∨ FrameFits (c.read r).2.buffer := by
  unfold WebsocketConnection.read
  obtain ⟨ret, c'⟩ := c.read r
  dsimp only
  by_cases hret : ret < 0
  · simp [hret]
  · simp only [hret, if_false, false_or]
    rcases readFrame_ok_or_fault c'.buffer with ⟨hfits, frame, hok⟩ | ⟨hfits, i, hfault⟩
    · simp [hfits, hok, bind, Except.bind]
    · simp only [hfits, iff_false, hfault, bind, Except.bind]
      exact fun h => h i _ rfl

/-- One byte of a frame makes `Read` reach outside of its buffer. -/
theorem read_one_byte_outOfBounds :
    ∃ i size, WebsocketConnection.read true
      { wsKey := ascii "key", onData := none, willCloseHook := none }
      ({ fd := 4 } : Connection Unit) (.data [0x81]) () = .error (.outOfBounds i size) :=
  ⟨1, 1, rfl⟩

end Httpoll.Native.WebsocketConnection
