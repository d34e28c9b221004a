import Httpoll.Spec.HeaderTokens
import Httpoll.Spec.RequestRoundTrip

/-!
# Blanks after the colon

The value of a header may stand right behind the colon, or after any number of blanks. Four
of the branches of `PushLine` skip whatever blanks there are. The Connection and the Upgrade
branch take one blank for granted: without it they lose the first character of the value.

## Key results

- `HeaderField.pushLine_of_pos`: any positive number of blanks does what one blank does
- `HeaderField.blanks_iff`: when the number of blanks makes no difference
-/

namespace Httpoll.Native

open HttpHeaderParser Separated

/-! ## Options without their first letter -/

/-- A text that begins with no option is no list of options. -/
private theorem not_optionList {v : Bytes} (hne : v.dropWhile (· == SP) ≠ [])
    (hnone : findOption (cString (v.dropWhile (· == SP)) 0) = none) : ¬ OptionList v := by
  intro h
  cases h with
  | blank h => exact hne h
  | option h _ => exact absurd (hnone.symm.trans h) (by simp)

/-- Without its first letter no option begins like an option. -/
private theorem options_drop_one :
    ∀ o ∈ connectionOptions, ∃ c cs, o.1 = c :: cs ∧ cs.map tolower = cs ∧
      cs.head? ≠ some (tolower SP) ∧ cs ≠ [] ∧
      ∀ o' ∈ connectionOptions, icaseCmp cs o'.1 = false := by
  simp only [connectionOptions, List.mem_cons, List.not_mem_nil, or_false, forall_eq_or_imp,
    forall_eq]
  refine ⟨⟨_, ascii "pgrade", rfl, ?_⟩, ⟨_, ascii "eep-alive", rfl, ?_⟩, ⟨_, ascii "lose", rfl, ?_⟩⟩
  all_goals decide

/-- A list of options that does not begin with a blank begins with an option. -/
private theorem OptionList.exists_prefix {v : Bytes} (hcr : CR ∈ v) (hnul : 0 ∉ v)
    (hhead : v.dropWhile (· == SP) = v) (h : OptionList v) :
    ∃ o ∈ connectionOptions, ∃ t rest, v = t ++ rest ∧ t.map tolower = o.1 := by
  cases h with
  | blank h => exact absurd (hhead.symm.trans h) (List.ne_nil_of_mem hcr)
  | @option _ o flag h _ =>
    rw [hhead, cString, List.drop_zero, takeWhile_ne_zero hnul, findOption] at h
    have hmem := List.mem_of_find?_eq_some h
    have hcmp := List.find?_some h
    have hlower : ∀ o ∈ connectionOptions, o.1.map tolower = o.1 ∧ tolower CR ∉ o.1 := by decide
    obtain ⟨hsame, hnot⟩ := hlower (o, flag) hmem
    -- the line end keeps the comparison from ending within the option
    rw [icaseCmp_eq_true_iff_isPrefix hcr (hsame.symm ▸ hnot), hsame] at hcmp
    obtain ⟨rest, hrest⟩ := hcmp
    obtain ⟨t, u, hv, ht, -⟩ := List.map_eq_append_iff.mp hrest.symm
    exact ⟨(o, flag), hmem, t, u, hv, ht⟩

/-- So a list of options is none without its first letter. -/
private theorem not_optionList_drop_one {v : Bytes} (hcr : CR ∈ v) (hnul : 0 ∉ v)
    (hhead : v.dropWhile (· == SP) = v) (h : OptionList v) : ¬ OptionList (v.drop 1) := by
  obtain ⟨o, ho, t, rest, rfl, ht⟩ := OptionList.exists_prefix hcr hnul hhead h
  obtain ⟨c, cs, hc, hlower, hsp, hcs, hother⟩ := options_drop_one o ho
  obtain ⟨x, xs, rfl, -, hxs⟩ := List.map_eq_cons_iff.mp (ht.trans hc)
  -- the text goes on with the second letter `y` of the option
  obtain ⟨y, ys, rfl⟩ : ∃ y ys, xs = y :: ys :=
    List.exists_cons_of_ne_nil fun hnil => hcs (by rw [← hxs, hnil]; rfl)
  have hy : y ≠ SP := by
    rintro rfl
    rw [← hxs] at hsp
    exact hsp rfl
  have hblank : (y :: (ys ++ rest)).dropWhile (· == SP) = y :: (ys ++ rest) :=
    List.dropWhile_cons_of_neg (by simp [hy])
  have hzero : 0 ∉ y :: (ys ++ rest) := fun h => hnul (List.mem_cons_of_mem x h)
  show ¬ OptionList (y :: (ys ++ rest))
  refine not_optionList (by rw [hblank]; exact List.cons_ne_nil _ _) ?_
  rw [hblank, cString, List.drop_zero, takeWhile_ne_zero hzero, findOption, List.find?_eq_none]
  intro o' ho'
  have hfalse : icaseCmp (y :: ys ++ rest) o'.1 = false :=
    icaseCmp_append_of_false (hxs.trans hlower.symm) (hother o' ho') rest
  simpa using hfalse

/-! ## Blanks before the word -/

/-- Blanks are no part of the word. -/
private theorem mentionsWebsocket_blanks (k : Nat) (t : Bytes) :
    MentionsWebsocket (List.replicate k SP ++ t) ↔ MentionsWebsocket t := by
  have hblank : tolower SP = SP := by decide
  rw [MentionsWebsocket, List.map_append, List.map_replicate, hblank,
    infix_replicate_append_iff (by decide) (by decide), MentionsWebsocket]

namespace HeaderField

variable {p : HttpHeaderParser} {f : HeaderField}

/-! ## The branches -/

/-- `PushLine` on a Content-Length line. -/
theorem pushLine_contentLength (hp : p.state = .Headers) (hf : f.Is (ascii "content-length"))
    (k : Nat) :
    p.pushLine (f.lineWith k) = some { p with contentLength := some (atoi (f.value ++ crlf)) } := by
  have hlen : f.name.length + 1 = 0 + kContentLength.length := hf.length_eq (by decide)
  have hdrop : (f.lineWith k).drop (f.name.length + 1 + k) = f.value ++ crlf := by
    rw [← List.drop_drop, f.drop_colon, List.drop_left' List.length_replicate]
  rw [pushLine_header hp (f.ne_crlf k), pushHeader, f.headerKind_line, if_pos hf, f.nextChar_line]
  dsimp only [pushContentLength]
  rw [← hlen, f.nextChar_value, hdrop]

/-- What the two loops see of the value: they begin one character after the colon. -/
private theorem drop_loop {name : Bytes} (hf : f.Is name) (key : Bytes)
    (hkey : name.length + 1 = key.length) (k : Nat) : (f.lineWith k).drop (0 + key.length + 1) =
      (List.replicate k SP ++ (f.value ++ crlf)).drop 1 := by
  rw [← hf.length_eq hkey, ← List.drop_drop, f.drop_colon]

/-- `PushLine` on an Upgrade line. -/
theorem pushLine_upgrade (hp : p.state = .Headers) (hf : f.Is (ascii "upgrade")) (k : Nat) :
    p.pushLine (f.lineWith k) = some { p with
      upgradeFlags :=
        if MentionsWebsocket ((List.replicate k SP ++ (f.value ++ crlf)).drop 1) then
          p.upgradeFlags ||| UpgradeWebSocket
        else p.upgradeFlags } := by
  have hkind : headerKind (f.lineWith k) = .upgrade := by
    have hlength : ¬ f.Is (ascii "content-length") :=
      fun h => absurd (h.symm.trans hf) (by decide)
    rw [f.headerKind_line, if_neg hlength, if_pos hf]
  have hline : f.lineWith k = (f.name ++ COLON :: (List.replicate k SP ++ f.value)) ++ crlf := by
    simp [lineWith]
  have hne := f.ne_crlf k
  have hnul := f.zero_not_mem k
  have hfront := f.nextChar_line k
  have hdrop := drop_loop hf kUpgrade (by decide) k
  -- the rule for this branch has the CRLF of the line written out
  rw [hline] at hkind hne hnul hfront hdrop ⊢
  rw [pushLine_upgrade_line hp hne hnul hkind, hfront, hdrop]

/-- `PushLine` on a Connection line. -/
theorem pushLine_connection (hp : p.state = .Headers) (hf : f.Is (ascii "connection")) (k : Nat)
    (q : HttpHeaderParser) :
    p.pushLine (f.lineWith k) = some q ↔
      ∃ flags, Loop.Returns (connectionBody (f.lineWith k))
        (0 + kConnection.length + 1, p.connectionFlags) flags ∧
        { p with connectionFlags := flags } = q := by
  have hkind : headerKind (f.lineWith k) = .connection := by
    have hother : ∀ name ≠ ascii "connection", ¬ f.Is name := fun name hne h =>
      hne (h.symm.trans hf)
    rw [f.headerKind_line, if_neg (hother _ (by decide)), if_neg (hother _ (by decide)),
      if_neg (hother _ (by decide)), if_pos hf]
  rw [pushLine_connection_iff hp (f.ne_crlf k) hkind, f.nextChar_line, ← Nat.add_assoc]

/-- A Connection line returns exactly on a list of options. -/
theorem pushLine_connection_isSome_iff (hp : p.state = .Headers) (hf : f.Is (ascii "connection"))
    (k : Nat) :
    (p.pushLine (f.lineWith k)).isSome ↔
      OptionList ((List.replicate k SP ++ (f.value ++ crlf)).drop 1) := by
  rw [← drop_loop hf kConnection (by decide) k,
    ← connectionBody_terminates_iff _ _ p.connectionFlags, Option.isSome_iff_exists]
  simp only [pushLine_connection hp hf]
  constructor
  · rintro ⟨q, flags, hrun, -⟩
    exact ⟨flags, hrun⟩
  · rintro ⟨flags, hrun⟩
    exact ⟨_, flags, hrun, rfl⟩

/-! ## Blanks after the colon -/

/-- Any positive number of blanks does what one blank does. -/
theorem pushLine_of_pos (hp : p.state = .Headers) {k : Nat} (hk : 1 ≤ k) :
    p.pushLine (f.lineWith k) = p.pushLine (f.lineWith 1) := by
  obtain ⟨n, rfl⟩ : ∃ n, k = n + 1 := ⟨k - 1, by omega⟩
  have hone : (List.replicate 1 SP ++ (f.value ++ crlf)).drop 1 = f.value ++ crlf := rfl
  have hmore : (List.replicate (n + 1) SP ++ (f.value ++ crlf)).drop 1 =
      List.replicate n SP ++ (f.value ++ crlf) := rfl
  -- every way in which `PushLine` treats a header skips all blanks behind the first one
  by_cases hlength : f.Is (ascii "content-length")
  · rw [pushLine_contentLength hp hlength, pushLine_contentLength hp hlength]
  by_cases hupgrade : f.Is (ascii "upgrade")
  · rw [pushLine_upgrade hp hupgrade, pushLine_upgrade hp hupgrade, hone, hmore]
    simp only [mentionsWebsocket_blanks]
  by_cases hconnection : f.Is (ascii "connection")
  · have hsame : ((f.lineWith (n + 1)).drop (0 + kConnection.length + 1)).dropWhile (· == SP) =
        ((f.lineWith 1).drop (0 + kConnection.length + 1)).dropWhile (· == SP) := by
      rw [drop_loop hconnection kConnection (by decide),
        drop_loop hconnection kConnection (by decide), hone, hmore,
        List.dropWhile_append_of_pos (by simp [SP])]
    -- the loop over the options starts behind the blanks in both lines
    ext q
    simp only [pushLine_connection hp hconnection]
    exact exists_congr fun flags => and_congr_left' ⟨connectionBody_returns_of_same hsame,
      connectionBody_returns_of_same hsame.symm⟩
  · have hplain : f.Plain := ⟨hlength, hupgrade, hconnection⟩
    rw [pushLine_line hplain hp, pushLine_line hplain hp]

/-- The loss of the first character of the value makes no difference to the two loops: the
    word that sets the flag occurs without it too, or the flag is set already; and the list of
    options is one that the parser hangs on either way. -/
def SparesFirst (p : HttpHeaderParser) (f : HeaderField) : Prop :=
  (f.Is (ascii "upgrade") → p.upgradeFlags ||| UpgradeWebSocket = p.upgradeFlags ∨
      (MentionsWebsocket f.value → MentionsWebsocket (f.value.drop 1))) ∧
    (f.Is (ascii "connection") →
      ¬ OptionList (f.value ++ crlf) ∧ ¬ OptionList ((f.value ++ crlf).drop 1))

/-- The word in the value without its first character. -/
private theorem mentionsWebsocket_drop_one (v : Bytes) :
    MentionsWebsocket ((v ++ crlf).drop 1) ↔ MentionsWebsocket (v.drop 1) := by
  cases v with
  | nil => decide
  | cons c cs => exact mentionsWebsocket_append_crlf cs

private theorem upgrade_blanks_iff (hp : p.state = .Headers) (hf : f.Is (ascii "upgrade")) :
    p.pushLine (f.lineWith 0) = p.pushLine (f.lineWith 1) ↔
      p.upgradeFlags ||| UpgradeWebSocket = p.upgradeFlags ∨
        (MentionsWebsocket f.value → MentionsWebsocket (f.value.drop 1)) := by
  have hzero : MentionsWebsocket ((List.replicate 0 SP ++ (f.value ++ crlf)).drop 1) ↔
      MentionsWebsocket (f.value.drop 1) := mentionsWebsocket_drop_one f.value
  have hone : MentionsWebsocket ((List.replicate 1 SP ++ (f.value ++ crlf)).drop 1) ↔
      MentionsWebsocket f.value := mentionsWebsocket_append_crlf f.value
  -- the shorter text has the word only if the longer one has it
  have hmore : MentionsWebsocket (f.value.drop 1) → MentionsWebsocket f.value := fun h =>
    h.trans (((f.value.drop_suffix 1).map tolower).isInfix)
  have hinj : ∀ a b, some { p with upgradeFlags := a } = some { p with upgradeFlags := b } ↔
      a = b := by simp
  rw [pushLine_upgrade hp hf, pushLine_upgrade hp hf, hinj]
  simp only [hzero, hone]
  by_cases hrest : MentionsWebsocket (f.value.drop 1)
  · simp only [hrest, hmore hrest, if_true, implies_true, or_true]
  by_cases hword : MentionsWebsocket f.value
  · simp only [hrest, hword, if_true, if_false, true_implies, or_false]
    exact eq_comm
  · simp only [hrest, hword, if_false, false_implies, or_true]

private theorem connection_blanks_iff (hp : p.state = .Headers) (hf : f.Is (ascii "connection")) :
    p.pushLine (f.lineWith 0) = p.pushLine (f.lineWith 1) ↔
      ¬ OptionList (f.value ++ crlf) ∧ ¬ OptionList ((f.value ++ crlf).drop 1) := by
  have hzero : (p.pushLine (f.lineWith 0)).isSome ↔ OptionList ((f.value ++ crlf).drop 1) :=
    pushLine_connection_isSome_iff hp hf 0
  have hone : (p.pushLine (f.lineWith 1)).isSome ↔ OptionList (f.value ++ crlf) :=
    pushLine_connection_isSome_iff hp hf 1
  constructor
  · intro heq
    rw [heq] at hzero
    -- no value is a list of options both with its first character and without it
    have hboth : OptionList (f.value ++ crlf) → ¬ OptionList ((f.value ++ crlf).drop 1) := by
      obtain ⟨c, cs, hcs, hc⟩ := f.exists_cons_value
      refine not_optionList_drop_one (by simp [crlf]) ?_ ?_
      · simp only [crlf, List.mem_append, List.mem_cons, not_or]
        exact ⟨f.value_text.2.2, by decide, by decide, List.not_mem_nil⟩
      · rw [hcs]
        exact List.dropWhile_cons_of_neg (by simp [hc])
    have hnot : ¬ OptionList (f.value ++ crlf) := fun h => hboth h (hzero.mp (hone.mpr h))
    exact ⟨hnot, fun h => hnot (hone.mp (hzero.mpr h))⟩
  · rintro ⟨hnot, hnot'⟩
    rw [Option.not_isSome_iff_eq_none.mp fun h => hnot (hone.mp h),
      Option.not_isSome_iff_eq_none.mp fun h => hnot' (hzero.mp h)]

/-- **Blanks after the colon.** With any number of blanks before the value the line has the
    same effect as with one, unless there is no blank at all and the line is an Upgrade or a
    Connection line whose value does not spare its first character. -/
theorem blanks_iff (p : HttpHeaderParser) (f : HeaderField) (k : Nat) (hp : p.state = .Headers) :
    p.pushLine (f.lineWith k) = p.pushLine (f.lineWith 1) ↔ 1 ≤ k ∨ f.SparesFirst p := by
  rcases Nat.eq_zero_or_pos k with rfl | hk
  · rw [or_iff_right (by omega), SparesFirst]
    by_cases hupgrade : f.Is (ascii "upgrade")
    · -- a header has one name only
      have hconnection : ¬ f.Is (ascii "connection") :=
        fun h => absurd (h.symm.trans hupgrade) (by decide)
      simp only [hupgrade, hconnection, true_implies, false_implies, and_true]
      exact upgrade_blanks_iff hp hupgrade
    by_cases hconnection : f.Is (ascii "connection")
    · simp only [hupgrade, hconnection, true_implies, false_implies, true_and]
      exact connection_blanks_iff hp hconnection
    · simp only [hupgrade, hconnection, false_implies, and_self, iff_true]
      by_cases hlength : f.Is (ascii "content-length")
      · rw [pushLine_contentLength hp hlength, pushLine_contentLength hp hlength]
      · have hplain : f.Plain := ⟨hlength, hupgrade, hconnection⟩
        rw [pushLine_line hplain hp, pushLine_line hplain hp]
  · have hpos : 1 ≤ k := hk
    simp only [pushLine_of_pos hp hpos, hpos, true_or]

/-- Three blanks before the value. -/
theorem blanks_connection_close :
    ({ state := .Headers } : HttpHeaderParser).pushLine (ascii "Connection:   close\r\n") =
      ({ state := .Headers } : HttpHeaderParser).pushLine (ascii "Connection: close\r\n") :=
  (blanks_iff { state := .Headers }
    ⟨ascii "Connection", ascii "close", by decide, by decide, by decide, by decide⟩ 3 rfl).mpr
    (.inl (by decide))

/-- Without a blank the parser does not see the protocol, and hangs on the option. -/
theorem blanks_none :
    let p : HttpHeaderParser := { state := .Headers }
    let upgrade : HeaderField :=
      ⟨ascii "Upgrade", ascii "websocket", by decide, by decide, by decide, by decide⟩
    let connection : HeaderField :=
      ⟨ascii "Connection", ascii "close", by decide, by decide, by decide, by decide⟩
    p.pushLine (upgrade.lineWith 0) = some p ∧
      p.pushLine (upgrade.lineWith 1) = some { p with upgradeFlags := UpgradeWebSocket } ∧
      p.pushLine (connection.lineWith 0) = none ∧
      p.pushLine (connection.lineWith 1) = some { p with connectionFlags := ConnectionClose } := by
  decide

end HeaderField

end Httpoll.Native
