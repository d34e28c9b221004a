import Httpoll.Spec.ProcessDataInLoops

/-!
# Line splitting

`PopLine` looks for a line end with loads of two bytes, at every index below `size() - 1`. It
takes a line off the buffer exactly when there is a CR followed by an LF, and calling it until
it returns no line splits the buffer.

## Key results

- `scanNewLine_returns`: the scanning loop stops at the first line end, or at `size() - 1`
- `popLineScan_eq`: with that loop, `PopLine` cuts the buffer after its first CRLF
- `popLine_splits`: what one call does to the buffer, and what all of them do
-/

namespace Httpoll.Native.Connection

variable {σ : Type}

/-! ## The scanning loop -/

/-- The two bytes of a line end, in one load. -/
private theorem load16_eq_iff (s : Bytes) (i : Nat) :
    load16 s i = kIntNewLine ↔ byteAt s i = CR ∧ byteAt s (i + 1) = LF := by
  have hload : load16 s i = (byteAt s i).toNat + (byteAt s (i + 1)).toNat * 2 ^ 8 := by
    rw [load16, Nat.or_comm, ← Nat.shiftLeft_add_eq_or_of_lt (byteAt s i).toNat_lt,
      Nat.shiftLeft_eq, Nat.add_comm]
  have hnew : kIntNewLine = 13 + 10 * 2 ^ 8 := by decide
  have hlow := (byteAt s i).toNat_lt
  have hcr : byteAt s i = CR ↔ (byteAt s i).toNat = 13 := UInt8.toNat_inj.symm
  have hlf : byteAt s (i + 1) = LF ↔ (byteAt s (i + 1)).toNat = 10 := UInt8.toNat_inj.symm
  rw [hload, hnew, hcr, hlf]
  omega

/-- The bytes that the loop looks at, behind those that it has gone past. -/
private theorem byteAt_append_right (pre s : Bytes) (i : Nat) :
    byteAt (pre ++ s) (pre.length + i) = byteAt s i := by
  rw [byteAt, byteAt, List.getD_eq_getElem?_getD, List.getD_eq_getElem?_getD,
    List.getElem?_append_right (by omega), Nat.add_sub_cancel_left]

private theorem scanNewLineBody_eq {buffer : Bytes} (hne : buffer ≠ []) (idx : Nat) :
    scanNewLineBody buffer idx =
      some (if idx < buffer.length - 1 ∧ load16 buffer idx ≠ kIntNewLine then .next (idx + 1)
        else .done idx) := by
  have hlen := List.length_pos_iff.mpr hne
  have hlast : buffer.length.psub 1 = some (buffer.length - 1) :=
    Nat.psub_eq_some.mpr (by omega)
  simp only [scanNewLineBody, hlast, Option.bind_eq_bind, Option.bind_some, Option.pure_def]
  by_cases hidx : idx < buffer.length - 1
  · by_cases hload : load16 buffer idx = kIntNewLine
    · simp [hidx, hload]
    · simp [hidx, hload]
  · simp [hidx]

/-- The load at the index is that of a line end when one is in front. -/
private theorem load16_front_eq_iff (pre : Bytes) (c c' : UInt8) (rest : Bytes) :
    load16 (pre ++ c :: c' :: rest) pre.length = kIntNewLine ↔ c = CR ∧ c' = LF := by
  have hfirst : byteAt (pre ++ c :: c' :: rest) pre.length = c := byteAt_append_right pre _ 0
  have hsecond : byteAt (pre ++ c :: c' :: rest) (pre.length + 1) = c' :=
    byteAt_append_right pre _ 1
  rw [load16_eq_iff, hfirst, hsecond]

/-- Where the loop ends when the first byte is no line end. -/
private theorem findNewLine_getD_cons {c c' : UInt8} {rest : Bytes} (h : ¬ (c = CR ∧ c' = LF)) :
    (findNewLine (c :: c' :: rest)).getD ((c :: c' :: rest).length - 1) =
      1 + (findNewLine (c' :: rest)).getD ((c' :: rest).length - 1) := by
  rw [findNewLine, if_neg h]
  cases findNewLine (c' :: rest) with
  | none =>
    simp only [Option.map_none, Option.getD_none, List.length_cons]
    omega
  | some idx =>
    simp only [Option.map_some, Option.getD_some]
    omega

/-- The loop from the bytes in front of `rest` on. -/
private theorem scanNewLine_returns_from (rest pre : Bytes) (hne : rest ≠ []) :
    Loop.Returns (scanNewLineBody (pre ++ rest)) pre.length
      (pre.length + (findNewLine rest).getD (rest.length - 1)) := by
  induction rest using findNewLine.induct generalizing pre with
  | case1 c c' rest hline =>
    have hload := (load16_front_eq_iff pre c c' rest).mpr hline
    have hfind : findNewLine (c :: c' :: rest) = some 0 := if_pos hline
    rw [hfind]
    apply Loop.Returns.of_done
    rw [scanNewLineBody_eq (by simp)]
    simp [hload]
  | case2 c c' rest hline ih =>
    have hload := mt (load16_front_eq_iff pre c c' rest).mp hline
    have hnext := ih (pre ++ [c]) (by simp)
    rw [List.append_assoc, List.singleton_append, List.length_append, List.length_singleton]
      at hnext
    rw [findNewLine_getD_cons hline, ← Nat.add_assoc]
    apply Loop.Returns.of_next _ hnext
    rw [scanNewLineBody_eq (by simp), if_pos ⟨by simp, hload⟩]
  | case3 rest hshort =>
    -- a single byte is left, and the loop does not look at it
    cases rest with
    | nil => exact absurd rfl hne
    | cons c rest =>
      cases rest with
      | cons c' rest => exact absurd rfl (hshort c c' rest)
      | nil =>
        apply Loop.Returns.of_done
        rw [scanNewLineBody_eq (by simp), if_neg (by simp)]
        rfl

/-- **The scanning loop ends**, at the first line end when there is one. -/
theorem scanNewLine_returns {buffer : Bytes} (hne : buffer ≠ []) :
    Loop.Returns (scanNewLineBody buffer) 0
      ((findNewLine buffer).getD (buffer.length - 1)) := by
  have hall := scanNewLine_returns_from buffer [] hne
  rw [List.nil_append, List.length_nil, Nat.zero_add] at hall
  exact hall

/-- The loop gets to its end within as many rounds as there are bytes. -/
private theorem scanNewLine_run {buffer : Bytes} (hne : buffer ≠ []) :
    Loop.run (scanNewLineBody buffer) buffer.length 0 =
      some ((findNewLine buffer).getD (buffer.length - 1)) := by
  have hlen := List.length_pos_iff.mpr hne
  -- the index goes up, or stays at the last byte, where the loop is done
  have hshorter : ∀ idx idx', scanNewLineBody buffer idx = some (.next idx') →
      buffer.length - 1 - idx' < buffer.length - 1 - idx ∨ idx' = idx := by
    intro idx idx' hbody
    rw [scanNewLineBody_eq hne] at hbody
    split at hbody
    · rename_i hround
      obtain rfl := Loop.Step.next.inj (Option.some.inj hbody)
      exact .inl (by omega)
    · cases hbody
  have hrun := Loop.run_of_measure_or_stuck (fun idx => buffer.length - 1 - idx) hshorter
    (scanNewLine_returns hne)
  rw [show buffer.length - 1 - 0 + 1 = buffer.length by omega] at hrun
  exact hrun

/-- The index of a line end leaves room for it. -/
private theorem findNewLine_lt {buffer : Bytes} {idx : Nat} (h : findNewLine buffer = some idx) :
    idx < buffer.length - 1 := by
  induction buffer using findNewLine.induct generalizing idx with
  | case1 c c' rest hline =>
    rw [findNewLine, if_pos hline] at h
    obtain rfl := Option.some.inj h
    simp
  | case2 c c' rest hline ih =>
    rw [findNewLine, if_neg hline, Option.map_eq_some_iff] at h
    obtain ⟨idx', hidx', rfl⟩ := h
    have hlt := ih hidx'
    simp only [List.length_cons] at hlt ⊢
    omega
  | case3 rest hshort =>
    unfold findNewLine at h
    split at h
    · exact absurd rfl (hshort _ _ _)
    · cases h

/-! ## One call -/

/-- `PopLine` with the scanning loop of the code is the cut after the first CRLF. -/
theorem popLineScan_eq (c : Connection σ) :
    c.popLineScan = some (match c.popLine with
      | some (line, c') => (some line, c')
      | none => (none, c)) := by
  unfold popLineScan popLine
  by_cases hshort : c.buffer.length < 2
  · simp only [hshort, if_true]
  · have hne : c.buffer ≠ [] := by
      intro hnil
      rw [hnil] at hshort
      exact hshort (by simp)
    have hlast : c.buffer.length.psub 1 = some (c.buffer.length - 1) :=
      Nat.psub_eq_some.mpr (by omega)
    simp only [hshort, if_false, scanNewLine_run hne, hlast, Option.bind_eq_bind,
      Option.bind_some, Option.pure_def]
    -- without a line end the scan stops at the last byte
    cases hfind : findNewLine c.buffer with
    | none => simp
    | some idx =>
      have hlt := findNewLine_lt hfind
      simp only [Option.getD_some]
      rw [if_neg (by omega)]

/-! ## All calls -/

theorem popLinesBody_next {c : Connection σ} {line rest : Bytes} (lines : List Bytes)
    (h : Lines.cut CR LF c.buffer = some (line, rest)) :
    popLinesBody (c, lines) = some (.next ({ c with buffer := rest }, lines ++ [line])) := by
  simp only [popLinesBody, popLineScan_eq, popLine_of_cut h, Option.bind_eq_bind,
    Option.bind_some, Option.pure_def]

theorem popLinesBody_done {c : Connection σ} (lines : List Bytes)
    (h : Lines.cut CR LF c.buffer = none) : popLinesBody (c, lines) = some (.done (c, lines)) := by
  simp only [popLinesBody, popLineScan_eq, popLine_of_cut_none h, Option.bind_eq_bind,
    Option.bind_some, Option.pure_def]

/-- The calls end, and the lines they return and what is left in the buffer split it. -/
theorem popLines_returns (c : Connection σ) (before : List Bytes) :
    ∃ lines rest, Loop.Returns popLinesBody (c, before)
        ({ c with buffer := rest }, before ++ lines) ∧
      Lines.IsSplit CR LF c.buffer lines rest := by
  -- every line makes the buffer shorter
  generalize hn : c.buffer.length = n
  induction n using Nat.strongRecOn generalizing c before with
  | ind n ih =>
    cases hcut : Lines.cut CR LF c.buffer with
    | none =>
      refine ⟨[], c.buffer, ?_, .nil hcut⟩
      rw [List.append_nil]
      exact .of_done (popLinesBody_done before hcut)
    | some p =>
      obtain ⟨line, rest⟩ := p
      have happend := congrArg List.length (Lines.eq_append_of_cut hcut)
      have hpos := List.length_pos_iff.mpr (Lines.isLine_of_cut hcut).ne_nil
      rw [List.length_append] at happend
      obtain ⟨lines, rest', hreturns, hsplit⟩ :=
        ih rest.length (by omega) { c with buffer := rest } (before ++ [line]) rfl
      rw [List.append_assoc, List.singleton_append] at hreturns
      exact ⟨line :: lines, rest', .of_next (popLinesBody_next before hcut) hreturns,
        .cons hcut hsplit⟩

/-! ## Splitting -/

/-- A line ends in CRLF and holds no earlier CRLF. -/
structure CrlfLine (line : Bytes) : Prop where
  ends : ∃ text, line = text ++ [CR, LF]
  no_earlier : ¬ [CR, LF] <:+: line.dropLast

theorem crlfLine_iff {line : Bytes} : CrlfLine line ↔ Lines.IsLine CR LF line :=
  ⟨fun h => Lines.isLine_iff.mpr ⟨h.ends, h.no_earlier⟩, fun h =>
    { ends := (Lines.isLine_iff.mp h).1
      no_earlier := (Lines.isLine_iff.mp h).2 }⟩

/-- **Line splitting.** `PopLine` returns a line exactly when there is a CR immediately followed
    by an LF in the buffer; the line ends in CRLF, holds no earlier one, and is what the buffer
    has lost at its front. Otherwise nothing changes. Calls until there is no line end, and
    their lines and the rest of the buffer are the only way to cut it into lines and a rest
    without CRLF. -/
theorem popLine_splits (c : Connection σ) :
    (∃ line c', c.popLineScan = some (line, c') ∧
      (line ≠ none ↔ [CR, LF] <:+: c.buffer) ∧
      (∀ l, line = some l → CrlfLine l ∧ l ++ c'.buffer = c.buffer) ∧
      (line = none → c' = c) ∧
      c' = { c with buffer := c'.buffer }) ∧
    ∃ lines rest, Loop.Returns popLinesBody (c, []) ({ c with buffer := rest }, lines) ∧
      (∀ l ∈ lines, CrlfLine l) ∧ ¬ [CR, LF] <:+: rest ∧ lines.flatten ++ rest = c.buffer ∧
      ∀ lines' rest', (∀ l ∈ lines', CrlfLine l) → ¬ [CR, LF] <:+: rest' →
        lines'.flatten ++ rest' = c.buffer → lines' = lines ∧ rest' = rest := by
  constructor
  · cases hcut : Lines.cut CR LF c.buffer with
    | none =>
      have hscan : c.popLineScan = some (none, c) := by
        rw [popLineScan_eq, popLine_of_cut_none hcut]
      -- no CRLF in the buffer: the loop runs to its end, and nothing is taken
      have hnot := Lines.cut_eq_none_iff.mp hcut
      exact ⟨none, c, hscan, by simp [hnot], by simp, fun _ => rfl, rfl⟩
    | some p =>
      obtain ⟨line, rest⟩ := p
      have hscan : c.popLineScan = some (some line, { c with buffer := rest }) := by
        rw [popLineScan_eq, popLine_of_cut hcut]
      -- the line ends at the first CRLF
      have hcrlf : [CR, LF] <:+: c.buffer := by
        by_contra hnot
        rw [Lines.cut_eq_none_iff.mpr hnot] at hcut
        cases hcut
      refine ⟨some line, _, hscan, by simp [hcrlf], ?_, by simp, rfl⟩
      intro l hl
      obtain rfl := Option.some.inj hl
      exact ⟨crlfLine_iff.mpr (Lines.isLine_of_cut hcut), (Lines.eq_append_of_cut hcut).symm⟩
  · obtain ⟨lines, rest, hreturns, hsplit⟩ := popLines_returns c []
    refine ⟨lines, rest, hreturns, fun l hl => crlfLine_iff.mpr (hsplit.isLine l hl),
      hsplit.no_delim, hsplit.append_eq, ?_⟩
    intro lines' rest' hlines' hrest' happend'
    -- any other splitting is one at the CRLFs too, and there is only one
    have hsplit' : Lines.IsSplit CR LF c.buffer lines' rest' :=
      { isLine := fun l hl => crlfLine_iff.mp (hlines' l hl)
        no_delim := hrest'
        append_eq := happend' }
    exact hsplit'.unique hsplit

end Httpoll.Native.Connection
