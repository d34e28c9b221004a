import Httpoll.Spec.WebsocketBounds

/-!
# WebSocket input and the segmentation of the stream

`Read` makes one frame of whatever one `read(2)` gave it. A whole frame at the front of the
buffer is taken right; what comes after it in the same buffer is dropped, and a frame of
which only a part has arrived makes `Read` reach outside of the buffer.

## Key results

- `readFrame_encode`: a whole frame is read, and nothing of what comes after it
- `run_wholeReads`: the calls of a run in which every read ends at the end of a frame
- `run_calls_eq_iff`: when these are the calls that the frames make one by one
- `run_partial_frame`: a read that ends inside its first frame
-/

namespace Httpoll.Native.WebsocketConnection

open Rfc6455 CheckedBuffer

/-! ## A whole frame at the front of the buffer -/

private theorem byteAt_key (key : MaskKey) (i : Nat) :
    byteAt key.toList (i &&& 3) = key.get i := by
  rw [show (3 : Nat) = 2 ^ 2 - 1 from rfl, Nat.and_two_pow_sub_one_eq_mod,
    show 2 ^ 2 = 4 from rfl]
  have hlt : i % 4 < 4 := Nat.mod_lt i (by decide)
  unfold MaskKey.get
  generalize i % 4 = k at hlt
  obtain rfl | rfl | rfl | rfl : k = 0 ∨ k = 1 ∨ k = 2 ∨ k = 3 := by omega
  · rfl
  · rfl
  · rfl
  · rfl

/-- The payload behind its masking key, whatever comes before and after. -/
theorem readPayload_append (before : Bytes) {buf payload rest : Bytes}
    {mask : Option MaskKey} {offset : Nat} (hoff : before.length = offset)
    (hbuf : buf = before ++ ((mask.map MaskKey.toList).getD [] ++
      (applyMask mask payload ++ rest))) :
    readPayload buf mask.isSome offset payload.length = .ok payload := by
  have hbody : (applyMask mask payload).length = payload.length := length_applyMask mask payload
  subst hbuf
  cases mask with
  | none =>
    -- without a key the payload follows the length
    rw [Option.isSome_none, readPayload_unmasked (by simp [hoff]), List.drop_left' hoff]
    simp [applyMask]
  | some key =>
    -- `Read` skips the four bytes of the key, and unmasks with them
    have hkey : key.toList.length = 4 := rfl
    have hpre : (before ++ key.toList).length = offset + 4 := by
      rw [List.length_append, hoff, hkey]
    simp only [Option.map_some, Option.getD_some, Option.isSome_some]
    rw [readPayload_masked (by simp only [List.length_append, hoff, hkey, hbody]; omega),
      List.drop_left' hoff, List.take_left' hkey, ← List.append_assoc, List.drop_left' hpre,
      List.take_left' hbody]
    simp only [byteAt_key]
    exact congrArg _ (applyMask_applyMask (some key) payload)

/-- The second byte of a frame and its extended length, as `Read` takes them. -/
private theorem payloadLength_encode (h : FrameHeader) (hlen : h.payloadLength < 2 ^ 16) :
    ∃ (b1 : UInt8) (ext : Bytes), h.lengthBytes = b1 :: ext ∧
      decide (128 ≤ b1.toNat) = h.mask.isSome ∧
      (ext = [] ∨ ext.length = 2 ∧ b1.toNat % 128 = 126) ∧
      ∀ rest, payloadLength (h.firstByte :: b1 :: ext ++ rest) (b1.toNat % 128) =
        .ok (h.payloadLength, 2 + ext.length) := by
  -- the top bit of the second byte is the mask flag, whatever the seven bits below it
  have hbit : h.maskBit = 0 ∧ h.mask.isSome = false ∨
      h.maskBit = 128 ∧ h.mask.isSome = true := by
    unfold FrameHeader.maskBit
    cases h.mask.isSome <;> simp
  have hmasked : ∀ {len7}, len7 < 128 →
      decide (128 ≤ (UInt8.ofNat (h.maskBit + len7)).toNat) = h.mask.isSome := by
    intro len7 hlt
    rw [toNat_maskBit_add h hlt]
    rcases hbit with ⟨h0, hs⟩ | ⟨h0, hs⟩ <;> rw [h0, hs]
    · exact decide_eq_false (by omega)
    · exact decide_eq_true (by omega)
  have hseven : ∀ {len7}, len7 < 128 → (UInt8.ofNat (h.maskBit + len7)).toNat % 128 = len7 := by
    intro len7 hlt
    rw [toNat_maskBit_add h hlt]
    omega
  by_cases h126 : h.payloadLength < 126
  · -- the length is in the seven bits
    refine ⟨UInt8.ofNat (h.maskBit + h.payloadLength), [], ?_, hmasked (by omega), .inl rfl, ?_⟩
    · rw [FrameHeader.lengthBytes, if_pos h126]
    · intro rest
      rw [hseven (by omega), payloadLength_short (by omega) (by omega)]
      rfl
  · -- 126 stands for a length in the two bytes that follow
    refine ⟨UInt8.ofNat (h.maskBit + 126), beBytes 2 h.payloadLength, ?_, hmasked (by decide),
      .inr ⟨length_beBytes 2 _, hseven (by decide)⟩, ?_⟩
    · rw [FrameHeader.lengthBytes, if_neg h126, if_pos hlen]
    · intro rest
      rw [hseven (by decide), payloadLength_middle (by simp)]
      have hext : ((h.firstByte :: UInt8.ofNat (h.maskBit + 126) ::
          beBytes 2 h.payloadLength ++ rest).drop 2).take 2 = beBytes 2 h.payloadLength :=
        List.take_left' (length_beBytes 2 _)
      rw [hext, beValue_beBytes (by omega), length_beBytes]

/-- **A whole frame is read**, and nothing of what comes after it. -/
theorem readFrame_encode {f : Frame} (hlen : f.payload.length < 2 ^ 16) (rest : Bytes) :
    readFrame (f.encode ++ rest) =
      .ok { fin := f.fin, opcode := f.opcode, payload := f.payload } := by
  obtain ⟨b1, ext, hbytes, hmask, -, hlength⟩ := payloadLength_encode f.header hlen
  have hbuf : f.encode ++ rest = f.header.firstByte :: b1 :: ext ++
      (f.header.maskBytes ++ (applyMask f.mask f.payload ++ rest)) := by
    simp [Frame.encode, encodeHeader, hbytes]
  have hpayload : readPayload (f.encode ++ rest) f.mask.isSome (2 + ext.length)
      f.payload.length = .ok f.payload :=
    readPayload_append (f.header.firstByte :: b1 :: ext)
      (by simp only [List.length_cons]; omega) hbuf
  have hfin : decide (128 ≤ f.header.firstByte.toNat) = f.fin := firstByte_fin f.header
  have hopcode : Fin.ofNat 16 f.header.firstByte.toNat = f.opcode :=
    Fin.ext (firstByte_opcode f.header)
  rw [hbuf] at hpayload ⊢
  rw [readFrame_of_length (by simp) (hlength _)]
  have hmask' : decide (128 ≤ b1.toNat) = f.mask.isSome := hmask
  simp only [List.cons_append, byteAt, List.getD_cons_zero, List.getD_cons_succ, hmask', hfin,
    hopcode] at hpayload ⊢
  rw [show f.header.payloadLength = f.payload.length from rfl, hpayload]
  rfl

/-- **A part of a frame is misread**: `Read` reaches outside of the buffer. -/
theorem readFrame_partial {f : Frame} (hlen : f.payload.length < 2 ^ 16) {part : Bytes}
    (hpre : part <+: f.encode) (hne : part ≠ f.encode) :
    ∃ i, readFrame part = .error (.outOfBounds i part.length) := by
  obtain ⟨b1, ext, hbytes, hmask, hext, hlength⟩ := payloadLength_encode f.header hlen
  have hencode : f.encode = f.header.firstByte :: b1 :: ext ++
      (f.header.maskBytes ++ applyMask f.mask f.payload) := by
    simp [Frame.encode, encodeHeader, hbytes]
  have hmasklen : f.header.maskBytes.length = if f.mask.isSome then 4 else 0 := by
    unfold FrameHeader.maskBytes
    dsimp only [Frame.header]
    cases f.mask <;> rfl
  have hlt : part.length < 2 + ext.length + (if f.mask.isSome then 4 else 0) +
      f.payload.length := by
    have hshort := Nat.lt_of_le_of_ne hpre.length_le fun heq => hne (hpre.eq_of_length heq)
    rw [hencode] at hshort
    simp only [List.length_append, List.length_cons, hmasklen, length_applyMask] at hshort
    omega
  -- the part ends inside the two bytes of the header
  rcases Nat.lt_or_ge part.length 2 with h2 | h2
  · obtain ⟨i, hi⟩ := load_of_lt part 0 (n := 2) (by decide) (by omega)
    exact ⟨i, by simp only [readFrame, hi, bind, Except.bind]⟩
  have hsecond : byteAt part 1 = b1 := by
    obtain ⟨t, ht⟩ := hpre
    rcases part with _ | ⟨c0, _ | ⟨c1, part⟩⟩
    · simp at h2
    · simp at h2
    · rw [hencode] at ht
      exact (List.cons.inj (List.cons.inj ht).2).1
  rcases Nat.lt_or_ge part.length (2 + ext.length) with hshort | hlong
  · -- inside the extended length
    rcases hext with rfl | ⟨hext, h126⟩
    · exact absurd h2 (by simpa using hshort)
    · have h126' : (byteAt part 1).toNat % 128 = 126 := by rw [hsecond, h126]
      obtain ⟨i, hi⟩ := payloadLength_fault (.inl ⟨h126', show part.length < 4 by omega⟩)
      exact ⟨i, readFrame_of_length_fault h2 hi⟩
  · -- inside the masking key or the payload
    obtain ⟨rest, rfl⟩ : (f.header.firstByte :: b1 :: ext) <+: part := by
      refine List.prefix_of_prefix_length_le ?_ hpre
        (by simp only [List.length_cons]; omega)
      rw [hencode]
      exact List.prefix_append _ _
    have hmask' : decide (128 ≤ b1.toNat) = f.mask.isSome := hmask
    have hlen' := hlength rest
    rw [← hsecond] at hlen'
    rw [readFrame_of_length h2 hlen', hsecond, hmask']
    obtain ⟨i, hi⟩ := readPayload_fault f.mask.isSome hlong hlt
    exact ⟨i, by rw [show f.header.payloadLength = f.payload.length from rfl, hi]; rfl⟩

/-! ## Runs -/

variable {σ : Type}

/-- The calls of `on_data_` over a run, one `Read` for each of the byte strings that the
    socket gives. The server closes the connection when `Read` returns -1. -/
def run (pingPong : Bool) : List Bytes → Connection σ → σ →
    Except Fault (List (Fin 16 × Bytes))
  | [], _, _ => .ok []
  | bytes :: reads, c, user =>
    match c.wsConn with
    | none => .ok []
    | some ws => do
      let out ← ws.read pingPong c (.data bytes) user
      if out.ret = -1 then .ok out.call.toList
      else do
        let calls ← run pingPong reads out.conn out.user
        .ok (out.call.toList ++ calls)

/-- A data frame that one read can take. -/
structure DataFrame where
  frame : Frame
  data : frame.opcode = WsFrameType.kTypeContinuation.toOpcode ∨
    frame.opcode = WsFrameType.kTypeText.toOpcode ∨
    frame.opcode = WsFrameType.kTypeBinary.toOpcode
  fits : frame.encode.length ≤ SMALL_MEMORY

/-- A read that ends at the end of a frame, with the frames that it takes. -/
structure WholeRead where
  first : DataFrame
  others : List DataFrame
  fits : ((first :: others).flatMap fun f => f.frame.encode).length ≤ SMALL_MEMORY

/-- What `read(2)` gives. -/
def WholeRead.bytes (r : WholeRead) : Bytes := (r.first :: r.others).flatMap fun f => f.frame.encode

/-- The frames of a read, each with whether it is the first one. -/
def WholeRead.marks (r : WholeRead) : List (Frame × Bool) :=
  (r.first.frame, true) :: r.others.map fun f => (f.frame, false)

/-- The messages that frames make up, each with the opcode of its last frame; `pending` has
    been received of the first one. -/
def messages : (pending : Bytes) → List Frame → List (Fin 16 × Bytes)
  | _, [] => []
  | pending, f :: fs =>
    if f.fin then (f.opcode, pending ++ f.payload) :: messages [] fs
    else messages (pending ++ f.payload) fs

/-- The calls that are made with `ms`: none after one that returns -1. -/
def callsOf (onData : WsHandler σ) : σ → List (Fin 16 × Bytes) → List (Fin 16 × Bytes)
  | _, [] => []
  | user, m :: ms =>
    if (onData user m.1 m.2).1 = -1 then [m]
    else m :: callsOf onData (onData user m.1 m.2).2 ms

/-- A connection that has been upgraded, between two reads, with `pending` in
    `last_payload_`. -/
def upgraded (fd : Int) (wsKey : Bytes) (hook : Option (WsHook σ)) (onData : WsHandler σ)
    (pending : Bytes) : Connection σ :=
  { fd, wsConn := some { wsKey, onData := some onData, willCloseHook := hook,
                         lastPayload := pending } }

variable (fd : Int) (wsKey : Bytes) (hook : Option (WsHook σ)) (onData : WsHandler σ)
  (pingPong : Bool)

theorem DataFrame.payload_length (f : DataFrame) : f.frame.payload.length < 2 ^ 16 := by
  have hfits := f.fits
  rw [Frame.encode, List.length_append, length_applyMask] at hfits
  unfold SMALL_MEMORY at hfits
  omega

/-- One `Read` with a whole data frame at the front. -/
theorem read_dataFrame (f : DataFrame) (rest pending : Bytes) (user : σ) :
    WebsocketConnection.read pingPong
        { wsKey, onData := some onData, willCloseHook := hook, lastPayload := pending }
        (upgraded fd wsKey hook onData pending) (.data (f.frame.encode ++ rest)) user =
      .ok (if f.frame.fin then
        { ret := (onData user f.frame.opcode (pending ++ f.frame.payload)).1
          conn := upgraded fd wsKey hook onData []
          user := (onData user f.frame.opcode (pending ++ f.frame.payload)).2
          call := some (f.frame.opcode, pending ++ f.frame.payload) }
      else
        { ret := 1
          conn := upgraded fd wsKey hook onData (pending ++ f.frame.payload)
          user }) := by
  have hne : 0 < (f.frame.encode ++ rest).length := by
    simp [Frame.encode, encodeHeader]
  -- neither a close frame nor a ping nor a pong
  have hclose : f.frame.opcode ≠ WsFrameType.kTypeClose.toOpcode := by
    rcases f.data with h | h | h <;> rw [h] <;> decide
  have hping : f.frame.opcode ≠ WsFrameType.kTypePing.toOpcode := by
    rcases f.data with h | h | h <;> rw [h] <;> decide
  have hpong : f.frame.opcode ≠ WsFrameType.kTypePong.toOpcode := by
    rcases f.data with h | h | h <;> rw [h] <;> decide
  simp only [WebsocketConnection.read, Connection.read, hne, if_true,
    show ¬ (1 : Int) < 0 from by decide, if_false, upgraded, List.nil_append,
    readFrame_encode f.payload_length, bind, Except.bind, handleFrame, hclose, hping, hpong,
    and_false]

/-- **A run of whole frames.** Of every read the first frame counts, and no other. -/
theorem run_wholeReads (reads : List WholeRead) (pending : Bytes) (user : σ) :
    run pingPong (reads.map WholeRead.bytes) (upgraded fd wsKey hook onData pending) user =
      .ok (callsOf onData user (messages pending (reads.map fun r => r.first.frame))) := by
  induction reads generalizing pending user with
  | nil => rfl
  | cons r reads ih =>
    have hbytes : r.bytes = r.first.frame.encode ++ r.others.flatMap fun f => f.frame.encode :=
      List.flatMap_cons
    have hread := read_dataFrame fd wsKey hook onData pingPong r.first
      (r.others.flatMap fun f => f.frame.encode) pending user
    rw [← hbytes] at hread
    simp only [List.map_cons, run]
    have hws : (upgraded fd wsKey hook onData pending).wsConn =
        some ⟨wsKey, some onData, hook, pending⟩ := rfl
    simp only [hws, hread, bind, Except.bind, messages]
    cases hfin : r.first.frame.fin with
    | false =>
      -- no call; the payload waits in `last_payload_`
      simp only [Bool.false_eq_true, if_false, show ¬ (1 : Int) = -1 from by decide, ih]
      rfl
    | true =>
      simp only [if_true, callsOf]
      split
      · -- the handler returned -1, and the server closes the connection
        rfl
      · simp only [ih]
        rfl

/-- A read that ends inside its first frame. -/
theorem run_partial_frame (f : DataFrame) {part : Bytes} (hpre : part <+: f.frame.encode)
    (hnil : part ≠ []) (hne : part ≠ f.frame.encode) (reads : List Bytes) (pending : Bytes)
    (user : σ) :
    ∃ i, run pingPong (part :: reads) (upgraded fd wsKey hook onData pending) user =
      .error (.outOfBounds i part.length) := by
  obtain ⟨i, hi⟩ := readFrame_partial f.payload_length hpre hne
  have hpos : 0 < part.length := List.length_pos_iff.mpr hnil
  refine ⟨i, ?_⟩
  simp only [run, upgraded, WebsocketConnection.read, Connection.read, hpos, if_true,
    show ¬ (1 : Int) < 0 from by decide, if_false, List.nil_append, hi, bind, Except.bind]

/-- A read that takes one frame. -/
def DataFrame.alone (f : DataFrame) : WholeRead :=
  { first := f, others := [], fits := by simpa using f.fits }

/-! ## Dropped frames -/

/-- The frames that `Read` takes. -/
def taken (marks : List (Frame × Bool)) : List Frame := (marks.filter (·.2)).map Prod.fst

/-- Every frame that is dropped is not final, and its payload is empty or no final frame
    comes after it. -/
def DropsHarmless : List (Frame × Bool) → Prop
  | [] => True
  | m :: ms =>
    (m.2 = false → m.1.fin = false ∧ (m.1.payload = [] ∨ ∀ m' ∈ ms, m'.1.fin = false)) ∧
      DropsHarmless ms

private theorem length_messages (pending : Bytes) (fs : List Frame) :
    (messages pending fs).length = fs.countP Frame.fin := by
  induction fs generalizing pending with
  | nil => rfl
  | cons f fs ih =>
    simp only [messages, List.countP_cons]
    cases f.fin <;> simp [ih]

private theorem messages_eq_nil {fs : List Frame} (h : ∀ f ∈ fs, f.fin = false)
    (pending : Bytes) : messages pending fs = [] := by
  rw [← List.length_eq_zero_iff, length_messages, List.countP_eq_zero]
  intro f hf
  simp [h f hf]

private theorem taken_cons (f : Frame) (first : Bool) (ms : List (Frame × Bool)) :
    taken ((f, first) :: ms) = if first then f :: taken ms else taken ms := by
  cases first <;> simp [taken]

private theorem countP_taken_le (ms : List (Frame × Bool)) :
    (taken ms).countP Frame.fin ≤ (ms.map Prod.fst).countP Frame.fin :=
  (List.filter_sublist.map _).countP_le

/-- Payload that was lost is missing in the next message. -/
private theorem messages_ne_of_lost {ms : List (Frame × Bool)} {pending pending' : Bytes}
    (hlt : pending.length < pending'.length) (hfin : ∃ m ∈ ms, m.1.fin = true) :
    messages pending (taken ms) ≠ messages pending' (ms.map Prod.fst) := by
  induction ms generalizing pending pending' with
  | nil => simp at hfin
  | cons m ms ih =>
    obtain ⟨f, first⟩ := m
    have hlt' : ∀ p : Bytes, (pending ++ p).length < (pending' ++ p).length := fun p => by
      simp only [List.length_append]; omega
    rw [taken_cons, List.map_cons]
    cases hf : f.fin with
    | true =>
      cases first with
      | true =>
        intro heq
        simp only [if_true, messages, hf, List.cons.injEq, Prod.mk.injEq, true_and] at heq
        have := congrArg List.length heq.1
        have := hlt' f.payload
        omega
      | false =>
        -- a final frame was dropped: there are too few messages
        intro heq
        have hcount := congrArg List.length heq
        simp only [Bool.false_eq_true, if_false, length_messages, List.countP_cons, hf,
          if_true] at hcount
        have := countP_taken_le ms
        omega
    | false =>
      have hrest : ∃ m ∈ ms, m.1.fin = true := by
        obtain ⟨m, hm, hmfin⟩ := hfin
        rcases List.mem_cons.mp hm with rfl | hm
        · cases hf.symm.trans hmfin
        · exact ⟨m, hm, hmfin⟩
      cases first with
      | true =>
        simp only [if_true, messages, hf, Bool.false_eq_true, if_false]
        exact ih (hlt' f.payload) hrest
      | false =>
        simp only [Bool.false_eq_true, if_false, messages, hf]
        -- the dropped payload only widens the gap
        refine ih ?_ hrest
        rw [List.length_append]
        omega

private theorem dropsHarmless_of_no_fin {ms : List (Frame × Bool)}
    (h : ∀ m ∈ ms, m.1.fin = false) : DropsHarmless ms := by
  induction ms with
  | nil => trivial
  | cons m ms ih =>
    have hms : ∀ m' ∈ ms, m'.1.fin = false := fun m' hm' => h m' (List.mem_cons_of_mem _ hm')
    exact ⟨fun _ => ⟨h m List.mem_cons_self, .inr hms⟩, ih hms⟩

/-- The frames that are taken make up the messages of all of them exactly when the frames
    that are dropped do no harm. -/
theorem messages_taken_eq_iff (ms : List (Frame × Bool)) (pending : Bytes) :
    messages pending (taken ms) = messages pending (ms.map Prod.fst) ↔ DropsHarmless ms := by
  induction ms generalizing pending with
  | nil => simp [taken, DropsHarmless]
  | cons m ms ih =>
    obtain ⟨f, first⟩ := m
    rw [taken_cons, List.map_cons]
    cases first with
    | true =>
      simp only [if_true, DropsHarmless, messages, Bool.true_eq_false, false_implies, true_and]
      cases f.fin with
      | true => simpa using ih []
      | false => simpa using ih _
    | false =>
      simp only [Bool.false_eq_true, if_false, DropsHarmless, true_implies]
      cases hf : f.fin with
      | true =>
        simp only [Bool.true_eq_false, false_and, iff_false]
        intro heq
        have hcount := congrArg List.length heq
        simp only [length_messages, List.countP_cons, hf, if_true] at hcount
        have := countP_taken_le ms
        omega
      | false =>
        simp only [messages, hf, Bool.false_eq_true, if_false, true_and]
        by_cases hnil : f.payload = []
        · simp [hnil, ih]
        by_cases hrest : ∃ m ∈ ms, m.1.fin = true
        · -- the payload is missing in the message that the next final frame ends
          have hlost : pending.length < (pending ++ f.payload).length := by
            have := List.length_pos_iff.mpr hnil
            rw [List.length_append]
            omega
          obtain ⟨m, hm, hmfin⟩ := hrest
          refine iff_of_false (messages_ne_of_lost hlost ⟨m, hm, hmfin⟩) ?_
          rintro ⟨hno | hno, -⟩
          · exact hnil hno
          · cases (hno m hm).symm.trans hmfin
        · have hno : ∀ m ∈ ms, m.1.fin = false := by
            intro m hm
            cases hmfin : m.1.fin with
            | false => rfl
            | true => exact absurd ⟨m, hm, hmfin⟩ hrest
          -- with no final frame to come there are no messages on either side
          have htaken : ∀ g ∈ taken ms, g.fin = false := by
            intro g hg
            obtain ⟨m, hm, rfl⟩ := List.mem_map.mp hg
            exact hno m (List.mem_filter.mp hm).1
          have hall : ∀ g ∈ ms.map Prod.fst, g.fin = false := by
            intro g hg
            obtain ⟨m, hm, rfl⟩ := List.mem_map.mp hg
            exact hno m hm
          rw [messages_eq_nil htaken, messages_eq_nil hall]
          exact iff_of_true rfl ⟨.inr hno, dropsHarmless_of_no_fin hno⟩

/-! ## Segmentation -/

/-- A handler that never closes the connection is called with every message. -/
private theorem callsOf_keep (user : σ) (ms : List (Fin 16 × Bytes)) :
    callsOf (fun user _ _ => (0, user)) user ms = ms := by
  induction ms with
  | nil => rfl
  | cons m ms ih => simp [callsOf, ih]

private theorem taken_marks (reads : List WholeRead) :
    taken (reads.flatMap WholeRead.marks) = reads.map fun r => r.first.frame := by
  induction reads with
  | nil => rfl
  | cons r reads ih =>
    have hothers : (r.others.map fun f => (f.frame, false)).filter (·.2) = [] :=
      List.filter_eq_nil_iff.mpr (by simp)
    rw [List.map_cons, ← ih]
    simp [taken, WholeRead.marks, hothers]

private theorem map_fst_marks (reads : List WholeRead) :
    (reads.flatMap WholeRead.marks).map Prod.fst =
      (reads.flatMap fun r => r.first :: r.others).map DataFrame.frame := by
  simp [List.map_flatMap, WholeRead.marks, Function.comp_def]

/-- **Segmentation of WebSocket input.** When every read ends at the end of a frame, the
    calls of `on_data_`, whatever the handler, are those that the frames make when each of
    them comes alone exactly when the frames that are not the first of their read are not
    final, and have no payload or no final frame after them. -/
theorem run_calls_eq_iff (pingPong : Bool) (fd : Int) (wsKey : Bytes) (hook : Option (WsHook σ))
    (user : σ) (reads : List WholeRead) :
    (∀ onData : WsHandler σ,
      run pingPong (reads.map WholeRead.bytes) (upgraded fd wsKey hook onData []) user =
        run pingPong ((reads.flatMap fun r => r.first :: r.others).map fun f => f.frame.encode)
          (upgraded fd wsKey hook onData []) user) ↔
      DropsHarmless (reads.flatMap WholeRead.marks) := by
  -- one by one, every frame is the first of its read
  have halone : ∀ onData : WsHandler σ,
      run pingPong ((reads.flatMap fun r => r.first :: r.others).map fun f => f.frame.encode)
        (upgraded fd wsKey hook onData []) user =
      .ok (callsOf onData user (messages [] ((reads.flatMap WholeRead.marks).map Prod.fst))) := by
    intro onData
    have h := run_wholeReads fd wsKey hook onData pingPong
      ((reads.flatMap fun r => r.first :: r.others).map DataFrame.alone) [] user
    rw [map_fst_marks]
    simpa [List.map_map, Function.comp_def, DataFrame.alone, WholeRead.bytes] using h
  simp only [run_wholeReads, halone, ← taken_marks, Except.ok.injEq]
  rw [← messages_taken_eq_iff _ []]
  -- a handler that keeps the connection is called with every message
  refine ⟨fun h => ?_, fun h onData => by rw [h]⟩
  simpa only [callsOf_keep] using h fun user _ _ => (0, user)

/-- The second of two frames that arrive in one read is dropped. -/
theorem run_two_frames_in_one_read :
    let frame := fun payload : Bytes => ({ fin := true, rsv := 0, opcode := 1
                                           mask := some ⟨1, 2, 3, 4⟩, payload } : Frame)
    let c : Connection Unit := upgraded 4 (ascii "key") none (fun user _ _ => (0, user)) []
    run true [(frame (ascii "a")).encode ++ (frame (ascii "b")).encode] c () ≠
      run true [(frame (ascii "a")).encode, (frame (ascii "b")).encode] c () := by
  decide

end Httpoll.Native.WebsocketConnection
