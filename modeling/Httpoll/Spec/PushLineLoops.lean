import Httpoll.ForStd.Lines
import Httpoll.Native.HeaderParser

/-!
# The loops of `PushLine`

Two loops of `PushLine` are not bounded by the length of the line on their face: the
`do … while` over the Upgrade value and the `do … while (true)` over the Connection
value. The first always ends. The second ends exactly when every option that it meets
is one it knows: in its `ignore` branch nothing moves the iterator.

## Key results

- `pushLine_eq_some_iff`: `pushLine` has enough fuel, so `none` means that `PushLine`
  never returns
- `connectionBody_terminates_iff`: when the Connection loop ends
- `pushLine_terminates_iff`: when `PushLine` ends
-/

namespace Httpoll.Native.HttpHeaderParser

/-! ## The values that the Connection loop gets through -/

/-- The text after the first comma, nothing when there is none. -/
def afterComma (v : Bytes) : Bytes := (v.dropWhile (· != COMMA)).drop 1

/-- A comma-separated list in which every element begins, after blanks, with an option
    that the Connection branch knows. What follows the option, up to the comma, is free. -/
inductive OptionList : Bytes → Prop where
  /-- Nothing but blanks is left. -/
  | blank {v : Bytes} (h : v.dropWhile (· == SP) = []) : OptionList v
  /-- A known option, and a list after the next comma. -/
  | option {v o : Bytes} {flag : Nat}
      (h : findOption (cString (v.dropWhile (· == SP)) 0) = some (o, flag))
      (rest : OptionList (afterComma ((v.dropWhile (· == SP)).drop o.length))) : OptionList v

/-- The line is not one whose Connection value holds an unknown option: the value is
    taken to begin one character after the colon. -/
def ConnectionValueKnown (p : HttpHeaderParser) (line : Bytes) : Prop :=
  p.state = .Headers → line ≠ crlf → headerKind line = .connection →
    OptionList (line.drop (nextChar line 0 (· != SP) + (kConnection.length + 1)))

/-- The call `PushLine(line)` returns. -/
def PushLineReturns (p : HttpHeaderParser) (line : Bytes) : Prop :=
  ∃ fuel p', p.pushLineFuel fuel line = some p'

/-! ## One round of the Connection loop -/

private theorem not_beq_comma : (fun c : UInt8 => !(c == COMMA)) = (· != COMMA) := by
  funext c; simp [bne]

/-- The text at the iterator once blanks are skipped. -/
theorem drop_skip_blanks (line : Bytes) (iter : Nat) :
    line.drop (nextChar line iter (· != SP)) = (line.drop iter).dropWhile (· == SP) :=
  drop_nextChar_bne line iter SP

/-- The iterator is at the end exactly when no text is left. -/
private theorem skip_blanks_eq_length_iff (line : Bytes) (iter : Nat) :
    nextChar line iter (· != SP) = line.length ↔ (line.drop iter).dropWhile (· == SP) = [] := by
  rw [← drop_skip_blanks, List.drop_eq_nil_iff]
  have := nextChar_le_length line iter (· != SP)
  omega

/-- The text at the iterator one past the next comma. -/
theorem drop_after_comma (line : Bytes) (off : Nat) :
    line.drop (nextChar line off (· == COMMA) + 1) = afterComma (line.drop off) := by
  rw [← List.drop_drop, drop_nextChar, not_beq_comma, afterComma]

/-- The Connection loop at the end of the line. -/
theorem connectionBody_end {line : Bytes} {iter : Nat} (flags : Nat)
    (h : (line.drop iter).dropWhile (· == SP) = []) :
    connectionBody line (iter, flags) = some (.done flags) := by
  simp only [connectionBody, (skip_blanks_eq_length_iff line iter).mpr h, if_true]

/-- The comparison is with the text at the iterator, up to a NUL. -/
private theorem cString_skip_blanks {line : Bytes} {iter : Nat}
    (hne : (line.drop iter).dropWhile (· == SP) ≠ []) :
    ¬ nextChar line iter (· != SP) = line.length ∧
      cString line (nextChar line iter (· != SP)) =
        cString ((line.drop iter).dropWhile (· == SP)) 0 := by
  refine ⟨fun heq => hne ((skip_blanks_eq_length_iff line iter).mp heq), ?_⟩
  simp only [cString, drop_skip_blanks, List.drop_zero]

/-- The Connection loop at an option that it knows. -/
theorem connectionBody_option {line : Bytes} {iter : Nat} (flags : Nat) {o : Bytes} {flag : Nat}
    (hne : (line.drop iter).dropWhile (· == SP) ≠ [])
    (h : findOption (cString ((line.drop iter).dropWhile (· == SP)) 0) = some (o, flag)) :
    connectionBody line (iter, flags) =
      some (.next (nextChar line (nextChar line iter (· != SP) + o.length) (· == COMMA) + 1,
        flags ||| flag)) := by
  obtain ⟨hend, htext⟩ := cString_skip_blanks hne
  simp only [connectionBody, hend, if_false, htext, h]

/-- The Connection loop at anything else: the `ignore` branch. -/
theorem connectionBody_ignore {line : Bytes} {iter : Nat} (flags : Nat)
    (hne : (line.drop iter).dropWhile (· == SP) ≠ [])
    (h : findOption (cString ((line.drop iter).dropWhile (· == SP)) 0) = none) :
    connectionBody line (iter, flags) = some (.next (nextChar line iter (· != SP), flags)) := by
  obtain ⟨hend, htext⟩ := cString_skip_blanks hne
  simp only [connectionBody, hend, if_false, htext, h]

/-- A round either moves the iterator on or leaves the state as it is. -/
theorem connectionBody_progress (line : Bytes) (s s' : Nat × Nat)
    (h : connectionBody line s = some (.next s')) :
    line.length + 2 - s'.1 < line.length + 2 - s.1 ∨ s' = s := by
  obtain ⟨iter, flags⟩ := s
  by_cases hend : (line.drop iter).dropWhile (· == SP) = []
  · rw [connectionBody_end flags hend] at h
    exact absurd h (by simp)
  have hlt : iter < line.length := by
    by_contra hge
    exact hend (by rw [List.drop_of_length_le (by omega)]; rfl)
  have hskip := le_nextChar (s := line) (· != SP) (by omega : iter ≤ line.length)
  cases hfind : findOption (cString ((line.drop iter).dropWhile (· == SP)) 0) with
  | some found =>
    obtain ⟨o, flag⟩ := found
    rw [connectionBody_option flags hend hfind] at h
    simp only [Option.some.injEq, Loop.Step.next.injEq] at h
    subst h
    left
    -- the option may reach over the end of the line, where `nextChar` stays put
    rcases Nat.lt_or_ge line.length (nextChar line iter (· != SP) + o.length) with hout | hin
    · have := nextChar_of_length_le (s := line) (· == COMMA) (Nat.le_of_lt hout)
      dsimp only
      omega
    · have := le_nextChar (s := line) (· == COMMA) hin
      dsimp only
      omega
  | none =>
    rw [connectionBody_ignore flags hend hfind] at h
    simp only [Option.some.injEq, Loop.Step.next.injEq] at h
    subst h
    -- blanks are skipped at most once, then the state stays the same
    rcases Nat.eq_or_lt_of_le hskip with heq | hmove
    · right; rw [← heq]
    · left; dsimp only; omega

/-! ## When the Connection loop ends -/

/-- In the `ignore` branch the next round starts from the same text. -/
private theorem dropWhile_skip_blanks (line : Bytes) (iter : Nat) :
    (line.drop (nextChar line iter (· != SP))).dropWhile (· == SP) =
      (line.drop iter).dropWhile (· == SP) := by
  rw [← drop_skip_blanks line (nextChar line iter (· != SP)), nextChar_nextChar, drop_skip_blanks]

/-- At an unknown option the loop goes round for ever. -/
theorem connectionBody_stuck {line : Bytes} {iter : Nat} (flags : Nat)
    (hne : (line.drop iter).dropWhile (· == SP) ≠ [])
    (h : findOption (cString ((line.drop iter).dropWhile (· == SP)) 0) = none) :
    ¬ Loop.Terminates (connectionBody line) (iter, flags) := by
  apply Loop.not_terminates_of_closed (I := fun s =>
    (line.drop s.1).dropWhile (· == SP) = (line.drop iter).dropWhile (· == SP))
  · -- the text at the iterator is the invariant: it never becomes an option
    rintro ⟨iter', flags'⟩ hsame
    dsimp only at hsame
    refine ⟨_, connectionBody_ignore flags' (hsame ▸ hne) (hsame ▸ h), ?_⟩
    exact (dropWhile_skip_blanks line iter').trans hsame
  · rfl

/-- The Connection loop sees of a line what is left of it at the iterator, blanks aside: where
    that is the same on two lines, so is the result. -/
theorem connectionBody_returns_of_same {line line' : Bytes} {iter iter' flags r : Nat}
    (hsame : (line.drop iter).dropWhile (· == SP) = (line'.drop iter').dropWhile (· == SP))
    (h : Loop.Returns (connectionBody line) (iter, flags) r) :
    Loop.Returns (connectionBody line') (iter', flags) r := by
  refine Loop.Returns.simulation (R := fun s t => s.2 = t.2 ∧
    (line.drop s.1).dropWhile (· == SP) = (line'.drop t.1).dropWhile (· == SP)) ?_ ?_ ⟨rfl, hsame⟩ h
  · rintro ⟨iter, flags⟩ s' ⟨iter', flags'⟩ ⟨rfl, hsame⟩ hbody
    dsimp only at hsame hbody ⊢
    by_cases hend : (line.drop iter).dropWhile (· == SP) = []
    · rw [connectionBody_end flags hend] at hbody
      exact absurd hbody (by simp)
    cases hfind : findOption (cString ((line.drop iter).dropWhile (· == SP)) 0) with
    | some found =>
      obtain ⟨o, flag⟩ := found
      rw [connectionBody_option flags hend hfind] at hbody
      obtain rfl := Loop.Step.next.inj (Option.some.inj hbody)
      refine ⟨_, connectionBody_option flags (hsame ▸ hend) (hsame ▸ hfind), rfl, ?_⟩
      -- both go on behind the next comma
      dsimp only
      rw [drop_after_comma, drop_after_comma, ← List.drop_drop, ← List.drop_drop,
        drop_skip_blanks, drop_skip_blanks, hsame]
    | none =>
      rw [connectionBody_ignore flags hend hfind] at hbody
      obtain rfl := Loop.Step.next.inj (Option.some.inj hbody)
      refine ⟨_, connectionBody_ignore flags (hsame ▸ hend) (hsame ▸ hfind), rfl, ?_⟩
      simp only [dropWhile_skip_blanks, hsame]
  · rintro ⟨iter, flags⟩ r ⟨iter', flags'⟩ ⟨rfl, hsame⟩ hbody
    dsimp only at hsame hbody ⊢
    by_cases hend : (line.drop iter).dropWhile (· == SP) = []
    · rw [connectionBody_end flags hend] at hbody
      rw [connectionBody_end flags (hsame ▸ hend), ← hbody]
    cases hfind : findOption (cString ((line.drop iter).dropWhile (· == SP)) 0) with
    | some found =>
      obtain ⟨o, flag⟩ := found
      rw [connectionBody_option flags hend hfind] at hbody
      exact absurd hbody (by simp)
    | none =>
      rw [connectionBody_ignore flags hend hfind] at hbody
      exact absurd hbody (by simp)

/-- The Connection loop ends exactly on a list of options that it knows. -/
theorem connectionBody_terminates_iff (line : Bytes) (iter flags : Nat) :
    Loop.Terminates (connectionBody line) (iter, flags) ↔ OptionList (line.drop iter) := by
  constructor
  · -- a run that ends shows the list, round by round
    rintro ⟨r, fuel, hrun⟩
    induction fuel generalizing iter flags with
    | zero => exact absurd hrun (by simp [Loop.run])
    | succ fuel ih =>
      by_cases hend : (line.drop iter).dropWhile (· == SP) = []
      · exact .blank hend
      cases hfind : findOption (cString ((line.drop iter).dropWhile (· == SP)) 0) with
      | none =>
        exact absurd ⟨r, fuel + 1, hrun⟩ (connectionBody_stuck flags hend hfind)
      | some found =>
        obtain ⟨o, flag⟩ := found
        rw [Loop.run_succ_next (connectionBody_option flags hend hfind)] at hrun
        have hrest := ih _ _ hrun
        rw [drop_after_comma, ← List.drop_drop, drop_skip_blanks] at hrest
        exact .option hfind hrest
  · -- and the list bounds the number of rounds
    intro hlist
    generalize hv : line.drop iter = v at hlist
    induction hlist generalizing iter flags with
    | blank h => exact ⟨flags, .of_done (connectionBody_end flags (hv ▸ h))⟩
    | @option v o flag h _ ih =>
      subst hv
      by_cases hend : (line.drop iter).dropWhile (· == SP) = []
      · exact ⟨flags, .of_done (connectionBody_end flags hend)⟩
      · rw [Loop.terminates_iff_of_next (connectionBody_option flags hend h)]
        apply ih
        rw [drop_after_comma, ← List.drop_drop, drop_skip_blanks]

/-! ## The Upgrade loop always ends -/

/-- A round of the Upgrade loop leaves it at the end of the line. -/
theorem upgradeBody_end {line : Bytes} {iter : Nat} (flags : Nat) (h : line.length ≤ iter + 1) :
    upgradeBody line (iter, flags) = some (.done flags) := by
  simp only [upgradeBody, nextChar_of_length_le _ h, if_true]

/-- The skip predicate of the loop skips nothing: a round looks at the next character. -/
private theorem nextChar_upgrade {line : Bytes} {iter : Nat} (h : iter + 1 < line.length) :
    nextChar line (iter + 1) (fun c => c != SP || c != CR || c != LF) = iter + 1 := by
  refine nextChar_of_forall (fun c => ?_) (by omega)
  by_cases hc : c = SP
  · subst hc; decide
  · simp [hc]

/-- A round at a text that compares unequal to the word goes to the next character. -/
theorem upgradeBody_other {line : Bytes} {iter : Nat} (flags : Nat) (h : iter + 1 < line.length)
    (hws : icaseCmp (cString line (iter + 1)) kUpgradeWs = false) :
    upgradeBody line (iter, flags) = some (.next (iter + 1, flags)) := by
  simp only [upgradeBody, nextChar_upgrade h, hws, Nat.ne_of_lt h, Bool.false_eq_true, if_false]

/-- A round at a text that compares equal to the word sets the flag, and goes to the next
    comma or leaves the loop. -/
theorem upgradeBody_websocket {line : Bytes} {iter : Nat} (flags : Nat)
    (h : iter + 1 < line.length)
    (hws : icaseCmp (cString line (iter + 1)) kUpgradeWs = true) :
    upgradeBody line (iter, flags) = some (.done (flags ||| UpgradeWebSocket)) ∨
      ∃ iter', iter < iter' ∧
        upgradeBody line (iter, flags) = some (.next (iter', flags ||| UpgradeWebSocket)) := by
  have hcomma := le_nextChar (s := line) (· == COMMA) (by omega : iter + 1 + 1 ≤ line.length)
  simp only [upgradeBody, nextChar_upgrade h, hws, Nat.ne_of_lt h, if_false, if_true]
  split
  · exact .inl rfl
  · exact .inr ⟨_, by omega, rfl⟩

/-- A round of the Upgrade loop returns, and moves the iterator on when it asks for
    another one. -/
theorem upgradeBody_progress (line : Bytes) (s : Nat × Nat) :
    ∃ step, upgradeBody line s = some step ∧
      ∀ s', step = .next s' → line.length + 2 - s'.1 < line.length + 2 - s.1 := by
  obtain ⟨iter, flags⟩ := s
  rcases Nat.lt_or_ge (iter + 1) line.length with hin | hend
  · cases hws : icaseCmp (cString line (iter + 1)) kUpgradeWs with
    | false =>
      refine ⟨_, upgradeBody_other flags hin hws, ?_⟩
      rintro s' ⟨rfl⟩
      dsimp only
      omega
    | true =>
      -- the word is found: the loop ends, or goes on behind it
      rcases upgradeBody_websocket flags hin hws with hround | ⟨iter', hlt, hround⟩
      · exact ⟨_, hround, by simp⟩
      · refine ⟨_, hround, ?_⟩
        rintro s' ⟨rfl⟩
        dsimp only
        omega
  · exact ⟨_, upgradeBody_end flags hend, by simp⟩

theorem upgradeBody_terminates (line : Bytes) (s : Nat × Nat) :
    Loop.Terminates (upgradeBody line) s :=
  Loop.terminates_of_measure (fun s => line.length + 2 - s.1) (I := fun _ => True)
    (fun s _ => by
      obtain ⟨step, hb, hlt⟩ := upgradeBody_progress line s
      exact ⟨step, hb, fun s' hs' => ⟨trivial, hlt s' hs'⟩⟩)
    trivial

/-! ## Enough fuel -/

/-- Fuel that is enough for the Connection loop. -/
private theorem connection_run_enough {line : Bytes} {s : Nat × Nat} {r fuel : Nat}
    (h : Loop.run (connectionBody line) fuel s = some r) :
    Loop.run (connectionBody line) (line.length + 3) s = some r :=
  Loop.run_mono (by omega : line.length + 2 - s.1 + 1 ≤ line.length + 3)
    (Loop.run_of_measure_or_stuck (fun s => line.length + 2 - s.1)
      (connectionBody_progress line) ⟨fuel, h⟩)

/-- Fuel that is enough for the Upgrade loop. -/
private theorem upgrade_run_enough {line : Bytes} {s : Nat × Nat} {r fuel : Nat}
    (h : Loop.run (upgradeBody line) fuel s = some r) :
    Loop.run (upgradeBody line) (line.length + 3) s = some r := by
  refine Loop.run_mono (by omega : line.length + 2 - s.1 + 1 ≤ line.length + 3)
    (Loop.run_of_measure_or_stuck (fun s => line.length + 2 - s.1) ?_ ⟨fuel, h⟩)
  intro s s' hb
  obtain ⟨step, hstep, hlt⟩ := upgradeBody_progress line s
  exact .inl (hlt s' (Option.some.inj (hstep.symm.trans hb)))

/-- Only the two branches with a loop depend on the fuel, and theirs is enough. -/
private theorem pushHeader_enough {p p' : HttpHeaderParser} {line : Bytes} {fuel : Nat}
    (h : p.pushHeader fuel line = some p') : p.pushHeader (line.length + 3) line = some p' := by
  unfold pushHeader at h ⊢
  cases hk : headerKind line with
  | upgrade =>
    simp only [hk, pushUpgrade, Option.map_eq_some_iff] at h ⊢
    obtain ⟨flags, hrun, rfl⟩ := h
    exact ⟨flags, upgrade_run_enough hrun, rfl⟩
  | connection =>
    simp only [hk, pushConnection, Option.map_eq_some_iff] at h ⊢
    obtain ⟨flags, hrun, rfl⟩ := h
    exact ⟨flags, connection_run_enough hrun, rfl⟩
  | contentLength | host | userAgent | other => simp only [hk] at h ⊢; exact h

/-- `pushLine` has enough fuel: it gives a result exactly when `PushLine` returns, and
    then the one that it returns with. -/
theorem pushLine_eq_some_iff {p p' : HttpHeaderParser} {line : Bytes} :
    p.pushLine line = some p' ↔ ∃ fuel, p.pushLineFuel fuel line = some p' := by
  refine ⟨fun h => ⟨_, h⟩, ?_⟩
  rintro ⟨fuel, h⟩
  unfold pushLine
  unfold pushLineFuel at h ⊢
  cases hs : p.state with
  | Headers =>
    simp only [hs] at h ⊢
    -- only header lines go through a loop
    by_cases hblank : line = crlf
    · rw [if_pos hblank] at h ⊢; exact h
    · rw [if_neg hblank] at h ⊢; exact pushHeader_enough h
  | FirstLine | Body | Done => simp only [hs] at h ⊢; exact h

/-- `PushLine` on an Upgrade line is its loop. -/
theorem pushLine_upgrade_iff {p p' : HttpHeaderParser} {line : Bytes} (hstate : p.state = .Headers)
    (hne : line ≠ crlf) (hkind : headerKind line = .upgrade) :
    p.pushLine line = some p' ↔
      ∃ flags, Loop.Returns (upgradeBody line)
        (nextChar line 0 (· != SP) + kUpgrade.length, p.upgradeFlags) flags ∧
        { p with upgradeFlags := flags } = p' := by
  simp only [pushLine_eq_some_iff, pushLineFuel, hstate, if_neg hne, pushHeader, hkind,
    pushUpgrade, Option.map_eq_some_iff, Loop.Returns]
  rw [exists_comm]
  simp only [exists_and_right]

/-- `PushLine` on a Connection line is its loop. -/
theorem pushLine_connection_iff {p p' : HttpHeaderParser} {line : Bytes}
    (hstate : p.state = .Headers) (hne : line ≠ crlf) (hkind : headerKind line = .connection) :
    p.pushLine line = some p' ↔
      ∃ flags, Loop.Returns (connectionBody line)
        (nextChar line 0 (· != SP) + (kConnection.length + 1), p.connectionFlags) flags ∧
        { p with connectionFlags := flags } = p' := by
  simp only [pushLine_eq_some_iff, pushLineFuel, hstate, if_neg hne, pushHeader, hkind,
    pushConnection, Option.map_eq_some_iff, Loop.Returns]
  rw [exists_comm]
  simp only [exists_and_right]

theorem pushLineReturns_iff {p : HttpHeaderParser} {line : Bytes} :
    PushLineReturns p line ↔ (p.pushLine line).isSome := by
  rw [Option.isSome_iff_exists, PushLineReturns, exists_comm]
  exact exists_congr fun p' => pushLine_eq_some_iff.symm

/-! ## When `PushLine` ends -/

/-- A header line is got through exactly when its Connection value, if it is a
    Connection header, is a list of known options. -/
private theorem pushHeader_returns_iff (p : HttpHeaderParser) (line : Bytes) :
    (∃ fuel p', p.pushHeader fuel line = some p') ↔
      (headerKind line = .connection →
        OptionList (line.drop (nextChar line 0 (· != SP) + (kConnection.length + 1)))) := by
  cases hk : headerKind line with
  -- an Upgrade header never hangs, a Connection header may
  | upgrade =>
    obtain ⟨flags, fuel, hrun⟩ := upgradeBody_terminates line
      (nextChar line 0 (· != SP) + kUpgrade.length, p.upgradeFlags)
    simp only [reduceCtorEq, false_implies, iff_true]
    exact ⟨fuel, { p with upgradeFlags := flags }, by
      simp only [pushHeader, hk, pushUpgrade, hrun, Option.map_some]⟩
  | connection =>
    simp only [true_implies]
    rw [← connectionBody_terminates_iff line _ p.connectionFlags]
    simp only [pushHeader, hk, pushConnection, Option.map_eq_some_iff]
    constructor
    · rintro ⟨fuel, _, flags, hrun, -⟩
      exact ⟨flags, fuel, hrun⟩
    · rintro ⟨flags, fuel, hrun⟩
      exact ⟨fuel, _, flags, hrun, rfl⟩
  | contentLength | host | userAgent | other =>
    simp only [reduceCtorEq, false_implies, iff_true]
    exact ⟨0, _, by simp only [pushHeader, hk]; rfl⟩

/-- **When `PushLine` returns.** In every state and on every line it does, except on a
    Connection header with an option that it does not know. -/
theorem pushLine_terminates_iff (p : HttpHeaderParser) (line : Bytes) :
    PushLineReturns p line ↔ ConnectionValueKnown p line := by
  unfold PushLineReturns ConnectionValueKnown pushLineFuel
  cases hs : p.state with
  | Headers =>
    by_cases hblank : line = crlf
    · simp [hblank]
    · simp only [true_implies, ne_eq, hblank, not_false_eq_true, if_false]
      exact pushHeader_returns_iff p line
  | FirstLine | Body | Done => simp

/-- A client can hang the server with one header line. -/
theorem pushLine_hangs_on_unknown_option :
    let p := HttpHeaderParser.pushFirstLine {} (ascii "GET / HTTP/1.1" ++ crlf)
    let line := ascii "Connection: foo" ++ crlf
    Lines.IsLine CR LF line ∧ ¬ PushLineReturns p line := by
  refine ⟨by decide, ?_⟩
  rw [pushLineReturns_iff]
  decide

end Httpoll.Native.HttpHeaderParser
