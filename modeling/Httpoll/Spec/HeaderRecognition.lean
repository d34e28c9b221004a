import Httpoll.Spec.HeaderTokens

/-!
# Which lines the special headers are read from

`icase_cmp` compares only as many characters as the shorter text has, and the text that
`PushLine` compares with the header names ends at the first NUL of the line. So a line with
the complete name is recognised, and so is a line that is cut off within the name by a NUL.

## Key results

- `icaseCmp_keyText_iff`: what the parser takes for a header name
- `recognisedSoundly_iff`: the lines on which no field changes without the complete name
-/

namespace Httpoll.Native

open HttpHeaderParser

/-! ## What the parser compares -/

/-- The text that is compared with the header names: after the leading spaces, up to a NUL. -/
def keyText (line : Bytes) : Bytes := (line.dropWhile (· == SP)).takeWhile (· != 0)

/-- That text is a proper beginning of the name, letter case aside. -/
def CutName (name line : Bytes) : Prop :=
  (keyText line).map tolower <+: name ∧ (keyText line).length < name.length

instance (name line : Bytes) : Decidable (CutName name line) :=
  inferInstanceAs (Decidable (_ ∧ _))

/-- The names of the headers that have a field of their own. -/
def specialNames : List Bytes := [kContentLength, kUpgrade, kHost, kConnection, kUserAgent]

private theorem specialNames_text :
    ∀ name ∈ specialNames, name.map tolower = name ∧ 0 ∉ name := by decide

private theorem specialNames_isPrefix :
    ∀ name ∈ specialNames, ∀ name' ∈ specialNames, name' <+: name → name' = name := by decide

/-- `icase_cmp` says that one of two texts is the beginning of the other, letter case aside. -/
private theorem icaseCmp_iff (s1 s2 : Bytes) :
    icaseCmp s1 s2 = true ↔
      s1.map tolower <+: s2.map tolower ∨ s2.map tolower <+: s1.map tolower := by
  induction s1 generalizing s2 with
  | nil => simp
  | cons c s1 ih =>
    cases s2 with
    | nil => simp
    | cons d s2 =>
      rw [icaseCmp_cons_cons, Bool.and_eq_true, beq_iff_eq, ih, List.map_cons, List.map_cons,
        List.cons_prefix_cons, List.cons_prefix_cons, eq_comm (a := tolower d), ← and_or_left]

private theorem cString_eq_keyText (line : Bytes) :
    cString line (nextChar line 0 (· != SP)) = keyText line := by
  rw [cString, drop_nextChar_bne, List.drop_zero, keyText]

private theorem prefix_map_takeWhile {name : Bytes} (hnul : 0 ∉ name) (d : Bytes)
    (h : name <+: d.map tolower) : name <+: (d.takeWhile (· != 0)).map tolower := by
  induction d generalizing name with
  | nil => exact h
  | cons x d ih =>
    cases name with
    | nil => exact List.nil_prefix
    | cons c name =>
      obtain ⟨rfl, hrest⟩ := List.cons_prefix_cons.mp h
      have hx : x ≠ 0 := by
        rintro rfl
        exact hnul (List.mem_cons_self (a := tolower 0))
      rw [List.takeWhile_cons_of_pos (by simpa using hx), List.map_cons, List.cons_prefix_cons]
      exact ⟨rfl, ih (fun hmem => hnul (List.mem_cons_of_mem _ hmem)) hrest⟩

/-- A name without NUL bytes is found before the first one or not at all. -/
private theorem named_iff_isPrefix {name : Bytes} (hnul : 0 ∉ name) (line : Bytes) :
    Named name line ↔ name <+: (keyText line).map tolower := by
  unfold Named keyText
  rw [List.map_take, eq_comm, ← List.prefix_iff_eq_take]
  constructor
  · exact prefix_map_takeWhile hnul _
  · exact fun h => h.trans ((List.takeWhile_prefix _).map tolower)

/-- **What the parser takes for a header name**: the complete name, or a proper beginning of it
    that a NUL cuts off. -/
theorem icaseCmp_keyText_iff {name : Bytes} (hname : name ∈ specialNames) (line : Bytes) :
    icaseCmp (keyText line) name = true ↔ Named name line ∨ CutName name line := by
  obtain ⟨hlower, hnul⟩ := specialNames_text name hname
  rw [icaseCmp_iff, hlower, named_iff_isPrefix hnul, CutName]
  constructor
  · rintro (hcut | hall)
    · rcases Nat.lt_or_ge (keyText line).length name.length with hlt | hge
      · exact .inr ⟨hcut, hlt⟩
      · -- a beginning as long as the name is the name
        have heq := hcut.eq_of_length_le (by simpa using hge)
        exact .inl (heq ▸ List.prefix_refl _)
    · exact .inl hall
  · rintro (hall | ⟨hcut, -⟩)
    · exact .inr hall
    · exact .inl hcut

/-- A line that a NUL cuts off within one name has no complete one. -/
private theorem CutName.not_named {name name' line : Bytes} (h : CutName name line)
    (hname : name ∈ specialNames) (hname' : name' ∈ specialNames) : ¬ Named name' line := by
  rw [named_iff_isPrefix (specialNames_text name' hname').2]
  intro hall
  have hlen := hall.length_le
  rw [specialNames_isPrefix name hname name' hname' (hall.trans h.1), List.length_map] at hlen
  have := h.2
  omega

/-- The names begin with different letters, but for two of them. A line that is cut off within
    two others is cut off before the first letter. -/
private theorem CutName.contentLength {name name' line : Bytes} (h : CutName name line)
    (h' : CutName name' line) (hne : name.head? ≠ name'.head?) : CutName kContentLength line := by
  have hnil : keyText line = [] := by
    cases hkey : keyText line with
    | nil => rfl
    | cons c key =>
      obtain ⟨rest, rfl⟩ := (hkey ▸ h.1 : (c :: key).map tolower <+: name)
      obtain ⟨rest', rfl⟩ := (hkey ▸ h'.1 : (c :: key).map tolower <+: name')
      exact absurd rfl hne
  rw [CutName, hnil]
  exact ⟨List.nil_prefix, by decide⟩

/-! ## The branches -/

/-- The names in the order in which they are tried, with the branch of each. -/
private def branches : List (Bytes × HeaderKind) :=
  [(kContentLength, .contentLength), (kUpgrade, .upgrade), (kHost, .host),
    (kConnection, .connection), (kUserAgent, .userAgent)]

private theorem branches_names : ∀ b ∈ branches, b.1 ∈ specialNames := by decide

private theorem headerKind_eq_find (line : Bytes) :
    headerKind line =
      ((branches.find? fun b => icaseCmp (keyText line) b.1).map Prod.snd).getD .other := by
  have hunfold : headerKind line =
      if icaseCmp (keyText line) kContentLength then .contentLength
      else if icaseCmp (keyText line) kUpgrade then .upgrade
      else if icaseCmp (keyText line) kHost then .host
      else if icaseCmp (keyText line) kConnection then .connection
      else if icaseCmp (keyText line) kUserAgent then .userAgent
      else .other := by
    unfold headerKind
    simp only [cString_eq_keyText]
  rw [hunfold, branches]
  simp only [List.find?_cons]
  split_ifs <;> simp_all

/-- A line goes to the branch of a name that it has, or within which it is cut off. -/
private theorem named_or_cut {line : Bytes} {name : Bytes} {kind : HeaderKind}
    (hbranch : (name, kind) ∈ branches) (hkind : headerKind line = kind) :
    Named name line ∨ CutName name line := by
  rw [← icaseCmp_keyText_iff (branches_names _ hbranch)]
  rw [headerKind_eq_find] at hkind
  -- no branch is for two names
  have hinj : ∀ b ∈ branches, ∀ b' ∈ branches, b.2 = b'.2 → b = b' := by decide
  have hother : ∀ b ∈ branches, b.2 ≠ .other := by decide
  cases hfind : branches.find? fun b => icaseCmp (keyText line) b.1 with
  | none =>
    rw [hfind] at hkind
    exact absurd hkind.symm (hother _ hbranch)
  | some b =>
    rw [hfind] at hkind
    obtain rfl := hinj b (List.mem_of_find?_eq_some hfind) _ hbranch hkind
    simpa using List.find?_some hfind

/-- A line that is cut off within a name goes to the branch of the name, unless it is cut off
    within one that is tried before. -/
private theorem headerKind_of_cut (pre : List (Bytes × HeaderKind)) {post name kind} {line : Bytes}
    (hbranches : branches = pre ++ (name, kind) :: post) (h : CutName name line)
    (hpre : ∀ b ∈ pre, ¬ CutName b.1 line) : headerKind line = kind := by
  have hname : name ∈ specialNames := branches_names (name, kind) (by simp [hbranches])
  have hfirst : pre.find? (fun b => icaseCmp (keyText line) b.1) = none := by
    rw [List.find?_eq_none]
    intro b hb
    have hb' : b.1 ∈ specialNames := branches_names b (by simp [hbranches, hb])
    rw [icaseCmp_keyText_iff hb']
    exact not_or.mpr ⟨h.not_named hname hb', hpre b hb⟩
  have hthis : icaseCmp (keyText line) name = true := (icaseCmp_keyText_iff hname line).mpr (.inr h)
  rw [headerKind_eq_find, hbranches, List.find?_append, hfirst, List.find?_cons]
  simp only [hthis]
  rfl

/-! ## The flags of the two loops -/

/-- `PushLine` on a line of the Upgrade branch, NUL bytes included. -/
private theorem pushLine_upgrade_any {p : HttpHeaderParser} {line : Bytes}
    (hstate : p.state = .Headers) (hne : line ≠ crlf) (hkind : headerKind line = .upgrade) :
    p.pushLine line = some { p with
      upgradeFlags :=
        if ∃ i < line.length, nextChar line 0 (· != SP) + kUpgrade.length < i ∧
            icaseCmp (cString line i) kUpgradeWs = true then
          p.upgradeFlags ||| UpgradeWebSocket
        else p.upgradeFlags } :=
  (pushLine_upgrade_iff hstate hne hkind).mpr ⟨_, upgradeBody_returns_any line _ _, rfl⟩

/-- The Connection loop only adds bits to the flags. -/
theorem connectionBody_keeps {line : Bytes} {iter flags r : Nat}
    (h : Loop.Returns (connectionBody line) (iter, flags) r) : flags ||| r = r := by
  refine Loop.Returns.invariant (I := fun s => flags ||| s.2 = s.2)
    (Q := fun r => flags ||| r = r) ?_ ?_ (Nat.or_self flags) h
  · rintro ⟨iter, flags'⟩ s' hkeep hbody
    by_cases hend : (line.drop iter).dropWhile (· == SP) = []
    · rw [connectionBody_end flags' hend] at hbody
      cases hbody
    -- a round adds the flag of the option that it finds, and takes none away
    cases hfind : findOption (cString ((line.drop iter).dropWhile (· == SP)) 0) with
    | none =>
      rw [connectionBody_ignore flags' hend hfind] at hbody
      obtain rfl := Loop.Step.next.inj (Option.some.inj hbody)
      exact hkeep
    | some found =>
      rw [connectionBody_option flags' hend hfind] at hbody
      obtain rfl := Loop.Step.next.inj (Option.some.inj hbody)
      dsimp only at hkeep ⊢
      rw [← Nat.or_assoc, hkeep]
  · rintro ⟨iter, flags'⟩ r hkeep hbody
    by_cases hend : (line.drop iter).dropWhile (· == SP) = []
    · rw [connectionBody_end flags' hend] at hbody
      obtain rfl := Loop.Step.done.inj (Option.some.inj hbody)
      exact hkeep
    cases hfind : findOption (cString ((line.drop iter).dropWhile (· == SP)) 0) with
    | none =>
      rw [connectionBody_ignore flags' hend hfind] at hbody
      cases hbody
    | some found =>
      rw [connectionBody_option flags' hend hfind] at hbody
      cases hbody

/-- From no flags the loop comes back with some when there is an option to read. -/
private theorem connectionBody_returns_ne_zero {line : Bytes} {iter r : Nat}
    (hne : (line.drop iter).dropWhile (· == SP) ≠ [])
    (h : Loop.Returns (connectionBody line) (iter, 0) r) : r ≠ 0 := by
  cases hfind : findOption (cString ((line.drop iter).dropWhile (· == SP)) 0) with
  | none => exact absurd ⟨r, h⟩ (connectionBody_stuck 0 hne hfind)
  | some found =>
    obtain ⟨o, flag⟩ := found
    rw [Loop.returns_iff_of_next (connectionBody_option 0 hne hfind), Nat.zero_or] at h
    have hflags : ∀ o ∈ connectionOptions, o.2 ≠ 0 := by decide
    have hflag : flag ≠ 0 := hflags (o, flag) (List.mem_of_find?_eq_some hfind)
    have hkeep := connectionBody_keeps h
    rintro rfl
    exact hflag (by simpa using hkeep)

/-! ## Sound recognition -/

/-- The line changes each of the fields of the special headers only when, after its leading
    spaces, it begins with the complete name of the header. -/
def RecognisedSoundly (line : Bytes) : Prop :=
  ∀ p p' : HttpHeaderParser, p.state = .Headers → p.pushLine line = some p' →
    (p'.contentLength ≠ p.contentLength → Named kContentLength line) ∧
      (p'.upgradeFlags ≠ p.upgradeFlags → Named kUpgrade line) ∧
      (p'.host ≠ p.host → Named kHost line) ∧
      (p'.connectionFlags ≠ p.connectionFlags → Named kConnection line) ∧
      (p'.userAgent ≠ p.userAgent → Named kUserAgent line)

/-- A line that a NUL cuts off within a header name does nothing there: it is no Content-Length,
    Host or User-Agent line, the word does not occur behind the name of an Upgrade line, and a
    Connection line has no options that the loop could read. -/
structure CutsHarmless (line : Bytes) : Prop where
  contentLength : ¬ CutName kContentLength line
  host : ¬ CutName kHost line
  userAgent : CutName kUserAgent line → CutName kUpgrade line
  upgrade : CutName kUpgrade line →
    ¬ ∃ i < line.length, nextChar line 0 (· != SP) + kUpgrade.length < i ∧
      icaseCmp (cString line i) kUpgradeWs = true
  connection : CutName kConnection line →
    OptionList (line.drop (nextChar line 0 (· != SP) + (kConnection.length + 1))) →
    (line.drop (nextChar line 0 (· != SP) + (kConnection.length + 1))).dropWhile (· == SP) = []

private theorem CutName.ne_crlf {name line : Bytes} (h : CutName name line)
    (hname : name ∈ specialNames) : line ≠ crlf := by
  rintro rfl
  have hnone : ∀ name ∈ specialNames, ¬ CutName name crlf := by decide
  exact hnone name hname h

/-- A line that cuts do no harm on is recognised soundly. -/
private theorem CutsHarmless.recognisedSoundly {line : Bytes} (h : CutsHarmless line) :
    RecognisedSoundly line := by
  intro p p' hstate hpush
  by_cases hblank : line = crlf
  · -- the empty line only changes the state
    subst hblank
    rw [pushLine_blank hstate, Option.some.injEq] at hpush
    subst hpush
    exact ⟨absurd rfl, absurd rfl, absurd rfl, absurd rfl, absurd rfl⟩
  have hheader := hpush
  rw [pushLine_header hstate hblank] at hheader
  obtain ⟨hlength, hupgrade, hhost, hconnection, hagent⟩ := pushHeader_special hheader
  refine ⟨fun hne => ?_, fun hne => ?_, fun hne => ?_, fun hne => ?_, fun hne => ?_⟩
  · have hkind := not_not.mp fun hk => hne (hlength hk)
    exact (named_or_cut (by decide) hkind).resolve_right h.contentLength
  · have hkind := not_not.mp fun hk => hne (hupgrade hk)
    refine (named_or_cut (by decide) hkind).resolve_right fun hcut => hne ?_
    rw [pushLine_upgrade_any hstate hblank hkind, if_neg (h.upgrade hcut),
      Option.some.injEq] at hpush
    rw [← hpush]
  · have hkind := not_not.mp fun hk => hne (hhost hk)
    exact (named_or_cut (by decide) hkind).resolve_right h.host
  · have hkind := not_not.mp fun hk => hne (hconnection hk)
    refine (named_or_cut (by decide) hkind).resolve_right fun hcut => hne ?_
    obtain ⟨flags, hrun, rfl⟩ := (pushLine_connection_iff hstate hblank hkind).mp hpush
    -- the loop has come to its end, and there was nothing to read
    have hlist := (connectionBody_terminates_iff line _ p.connectionFlags).mp ⟨flags, hrun⟩
    exact hrun.unique (.of_done (connectionBody_end _ (h.connection hcut hlist)))
  · have hkind := not_not.mp fun hk => hne (hagent hk)
    refine (named_or_cut (by decide) hkind).resolve_right fun hcut => ?_
    have hupgrade := headerKind_of_cut [(kContentLength, .contentLength)] rfl (h.userAgent hcut)
      (by simpa using h.contentLength)
    rw [hkind] at hupgrade
    cases hupgrade

namespace RecognisedSoundly

variable {line : Bytes}

private theorem contentLength (h : RecognisedSoundly line) : ¬ CutName kContentLength line := by
  intro hcut
  have hkind := headerKind_of_cut [] rfl hcut (by simp)
  generalize hp : ({ state := .Headers } : HttpHeaderParser) = p
  have hstate : p.state = .Headers := by rw [← hp]
  have hpush : p.pushLine line = some (p.pushContentLength line (nextChar line 0 (· != SP))) := by
    rw [pushLine_header hstate (hcut.ne_crlf (by decide)), pushHeader, hkind]
  refine hcut.not_named (by decide) (by decide) ((h p _ hstate hpush).1 ?_)
  simp [pushContentLength, ← hp]

/-- The line is not cut off within two names that begin with different letters. -/
private theorem not_cutName (h : RecognisedSoundly line) {name name' : Bytes}
    (hcut : CutName name line) (hne : name.head? ≠ name'.head?) : ¬ CutName name' line :=
  fun hcut' => h.contentLength (hcut.contentLength hcut' hne)

private theorem host (h : RecognisedSoundly line) : ¬ CutName kHost line := by
  intro hcut
  have hkind := headerKind_of_cut [(kContentLength, .contentLength), (kUpgrade, .upgrade)] rfl
    hcut (by simpa using ⟨h.contentLength, h.not_cutName hcut (by decide)⟩)
  -- a parser with another host
  generalize hv : headerValue line (nextChar line 0 (· != SP) + kHost.length) = v
  have hpush : ({ state := .Headers, host := 0 :: v } : HttpHeaderParser).pushLine line =
      some { state := .Headers, host := v } := by
    rw [pushLine_header rfl (hcut.ne_crlf (by decide)), pushHeader, hkind]
    simp only [pushHost, hv]
  refine hcut.not_named (by decide) (by decide) ((h _ _ rfl hpush).2.2.1 ?_)
  simp

private theorem userAgent (h : RecognisedSoundly line) (hcut : CutName kUserAgent line) :
    CutName kUpgrade line := by
  by_contra hupgrade
  have hkind := headerKind_of_cut [(kContentLength, .contentLength), (kUpgrade, .upgrade),
    (kHost, .host), (kConnection, .connection)] rfl hcut
    (by simpa using ⟨h.contentLength, hupgrade, h.not_cutName hcut (by decide),
      h.not_cutName hcut (by decide)⟩)
  -- a parser with another user agent
  generalize hv : headerValue line (nextChar line 0 (· != SP) + kUserAgent.length) = v
  have hpush : ({ state := .Headers, userAgent := 0 :: v } : HttpHeaderParser).pushLine line =
      some { state := .Headers, userAgent := v } := by
    rw [pushLine_header rfl (hcut.ne_crlf (by decide)), pushHeader, hkind]
    simp only [pushUserAgent, hv]
  refine hcut.not_named (by decide) (by decide) ((h _ _ rfl hpush).2.2.2.2 ?_)
  simp

private theorem upgrade (h : RecognisedSoundly line) (hcut : CutName kUpgrade line) :
    ¬ ∃ i < line.length, nextChar line 0 (· != SP) + kUpgrade.length < i ∧
      icaseCmp (cString line i) kUpgradeWs = true := by
  intro hword
  have hkind := headerKind_of_cut [(kContentLength, .contentLength)] rfl hcut
    (by simpa using h.contentLength)
  have hpush := pushLine_upgrade_any (p := { state := .Headers }) rfl
    (hcut.ne_crlf (by decide)) hkind
  rw [if_pos hword] at hpush
  refine hcut.not_named (by decide) (by decide) ((h _ _ rfl hpush).2.1 ?_)
  decide

private theorem connection (h : RecognisedSoundly line) (hcut : CutName kConnection line)
    (hlist : OptionList (line.drop (nextChar line 0 (· != SP) + (kConnection.length + 1)))) :
    (line.drop (nextChar line 0 (· != SP) + (kConnection.length + 1))).dropWhile (· == SP) =
      [] := by
  by_contra hne
  have hkind := headerKind_of_cut [(kContentLength, .contentLength), (kUpgrade, .upgrade),
    (kHost, .host)] rfl hcut
    (by simpa using ⟨h.contentLength, h.not_cutName hcut (by decide),
      h.not_cutName hcut (by decide)⟩)
  -- from no flags the loop comes back with some
  obtain ⟨flags, hrun⟩ := (connectionBody_terminates_iff line _ 0).mpr hlist
  have hpush := (pushLine_connection_iff (p := { state := .Headers }) rfl
    (hcut.ne_crlf (by decide)) hkind).mpr ⟨flags, hrun, rfl⟩
  refine hcut.not_named (by decide) (by decide) ((h _ _ rfl hpush).2.2.2.1 ?_)
  exact connectionBody_returns_ne_zero hne hrun

/-- And a line that is recognised soundly is one that cuts do no harm on. -/
private theorem cutsHarmless (h : RecognisedSoundly line) : CutsHarmless line where
  contentLength := h.contentLength
  host := h.host
  userAgent := h.userAgent
  upgrade := h.upgrade
  connection := h.connection

end RecognisedSoundly

/-- **Sound recognition.** The fields of the special headers change only under their complete
    names if and only if no NUL cuts the line off within such a name, or nothing comes of it. -/
theorem recognisedSoundly_iff (line : Bytes) : RecognisedSoundly line ↔ CutsHarmless line :=
  ⟨RecognisedSoundly.cutsHarmless, CutsHarmless.recognisedSoundly⟩

/-- A line of one NUL sets the content length. -/
theorem recognisedSoundly_nul :
    let line : Bytes := 0 :: crlf
    let p : HttpHeaderParser := { state := .Headers }
    Lines.IsLine CR LF line ∧ p.pushLine line = some { p with contentLength := some 0 } ∧
      ¬ Named kContentLength line := by
  decide

end Httpoll.Native
