import Httpoll.ForStd.Separated
import Httpoll.Spec.ContentLength
import Httpoll.Spec.PushLineLoops

/-!
# The token lists of the Connection and the Upgrade header

Both values are comma-separated lists, and both loops compare the rest of the line with a
word. The Connection loop does so where a token begins, so it finds the options of the
list. The Upgrade loop does so at every character, so it finds the word inside a token too.

## Key results

- `pushLine_connection_tokens`: a list of known options is read to its end, and adds
  exactly their bits
- `upgrade_flag_iff`: when a list of protocols sets the flag that it should
-/

namespace Httpoll.Native

open HttpHeaderParser Separated

/-! ## The Connection header -/

/-- An option that the Connection branch knows, as a client may spell it. -/
structure ConnectionToken where
  text : Bytes
  flag : Nat
  known : (text.map tolower, flag) ∈ connectionOptions

/-- The bits of the options of a list. -/
def optionBits (tokens : List ConnectionToken) : Nat :=
  tokens.foldr (fun t bits => t.flag ||| bits) 0

namespace ConnectionToken

variable (t : ConnectionToken)

/-- The options that there are. -/
private theorem known_cases :
    (t.text.map tolower = ascii "upgrade" ∧ t.flag = ConnectionUpgrade) ∨
      (t.text.map tolower = ascii "keep-alive" ∧ t.flag = ConnectionKeepAlive) ∨
        (t.text.map tolower = ascii "close" ∧ t.flag = ConnectionClose) := by
  simpa [connectionOptions] using t.known

theorem not_mem_text {c : UInt8} (hc : ∀ o ∈ connectionOptions, tolower c ∉ o.1) :
    c ∉ t.text :=
  fun hmem => hc _ t.known (List.mem_map_of_mem hmem)

theorem text_ne_nil : t.text ≠ [] := by
  intro h
  have hknown : ([], t.flag) ∈ connectionOptions := by simpa [h] using t.known
  have hnone : ∀ o ∈ connectionOptions, o.1 ≠ [] := by decide
  exact hnone _ hknown rfl

/-- Where an option begins the loop finds it, whatever follows. -/
theorem findOption_text (rest : Bytes) :
    findOption (t.text ++ rest) = some (t.text.map tolower, t.flag) := by
  unfold findOption connectionOptions
  have hsame : ∀ w : Bytes, w.map tolower = w → t.text.map tolower = w →
      t.text.map tolower = w.map tolower := fun w hlower hname => hname.trans hlower.symm
  -- no option is the beginning of another one
  rcases t.known_cases with ⟨hname, hflag⟩ | ⟨hname, hflag⟩ | ⟨hname, hflag⟩
  · have hupgrade := icaseCmp_append (hsame _ (by decide) hname) rest
    simp only [List.find?, hupgrade, hname, hflag]
  · have h := hsame _ (by decide) hname
    have hupgrade : icaseCmp (t.text ++ rest) (ascii "upgrade") = false :=
      icaseCmp_append_of_false h (by decide) rest
    simp only [List.find?, hupgrade, icaseCmp_append h rest, hname, hflag]
  · have h := hsame _ (by decide) hname
    have hupgrade : icaseCmp (t.text ++ rest) (ascii "upgrade") = false :=
      icaseCmp_append_of_false h (by decide) rest
    have hkeep : icaseCmp (t.text ++ rest) (ascii "keep-alive") = false :=
      icaseCmp_append_of_false h (by decide) rest
    simp only [List.find?, hupgrade, hkeep, icaseCmp_append h rest, hname, hflag]

end ConnectionToken

/-! ## The Connection loop on a list -/

/-- The text after the next comma, where an element ends before one. -/
private theorem afterComma_replicate (n : Nat) (text : Bytes) :
    afterComma (List.replicate n SP ++ COMMA :: text) = text := by
  rw [afterComma, List.dropWhile_append_of_pos (by simp [SP, COMMA]),
    List.dropWhile_cons_of_neg (by simp), List.drop_one, List.tail_cons]

/-- There is none after the last element. -/
private theorem afterComma_crlf (n : Nat) : afterComma (List.replicate n SP ++ crlf) = [] := by
  rw [afterComma, List.dropWhile_append_of_pos (by simp [SP, COMMA])]
  decide

/-- The rest of the line at an element: the round takes the loop past the next comma. -/
private theorem connectionBody_token (t : ConnectionToken) {line rest : Bytes}
    {iter before after : Nat} (flags : Nat)
    (h : line.drop iter = padded SP before t.text after ++ rest) :
    ∃ iter', connectionBody line (iter, flags) = some (.next (iter', flags ||| t.flag)) ∧
      line.drop iter' = afterComma (List.replicate after SP ++ rest) := by
  have hblank : SP ∉ t.text := t.not_mem_text (by decide)
  have hzero : 0 ∉ t.text := t.not_mem_text (by decide)
  have hfront : (line.drop iter).dropWhile (· == SP) =
      t.text ++ (List.replicate after SP ++ rest) := by
    rw [h, dropWhile_padded t.text_ne_nil hblank]
  -- behind the blanks the C string begins with the token
  have hfind : findOption (cString ((line.drop iter).dropWhile (· == SP)) 0) =
      some (t.text.map tolower, t.flag) := by
    rw [hfront, cString, List.drop_zero,
      List.takeWhile_append_of_pos (List.takeWhile_eq_self_iff.mp (takeWhile_ne_zero hzero)),
      t.findOption_text]
  have hne : (line.drop iter).dropWhile (· == SP) ≠ [] := by
    rw [hfront]
    simp [t.text_ne_nil]
  refine ⟨_, connectionBody_option flags hne hfind, ?_⟩
  rw [drop_after_comma, ← List.drop_drop, drop_skip_blanks, hfront, List.length_map,
    List.drop_left]

/-- The loop reads a list to its end and collects the bits of its options. -/
theorem connectionBody_returns {line value : Bytes} {tokens : List ConnectionToken} {iter : Nat}
    (flags : Nat) (hlist : Spells SP COMMA (tokens.map ConnectionToken.text) value)
    (hline : line.drop iter = value ++ crlf) :
    Loop.Returns (connectionBody line) (iter, flags) (flags ||| optionBits tokens) := by
  generalize htexts : tokens.map ConnectionToken.text = texts at hlist
  induction hlist generalizing tokens iter flags with
  | last text before after =>
    obtain ⟨t, rfl, rfl⟩ := List.map_eq_singleton_iff.mp htexts
    obtain ⟨iter', hround, hrest⟩ := connectionBody_token t flags hline
    -- past the last element no text is left
    rw [afterComma_crlf] at hrest
    refine .of_next hround ?_
    have hend : (line.drop iter').dropWhile (· == SP) = [] := by rw [hrest]; rfl
    simpa [optionBits] using Loop.Returns.of_done (connectionBody_end (flags ||| t.flag) hend)
  | cons text before after rest ih =>
    obtain ⟨t, ts, rfl, rfl, hts⟩ := List.map_eq_cons_iff.mp htexts
    rw [List.append_assoc, List.cons_append] at hline
    obtain ⟨iter', hround, hrest⟩ := connectionBody_token t flags hline
    rw [afterComma_replicate] at hrest
    refine .of_next hround ?_
    rw [optionBits, List.foldr_cons, ← Nat.or_assoc]
    exact ih _ hrest hts

/-! ## The Connection line -/

private theorem headerKind_connection (rest : Bytes) :
    headerKind (ascii "Connection: " ++ rest) = .connection := by
  have hfront : nextChar (ascii "Connection: " ++ rest) 0 (· != SP) = 0 := rfl
  have hkey : cString (ascii "Connection: " ++ rest) 0 =
      ascii "Connection:" ++ SP :: cString rest 0 := rfl
  -- the names that are compared before it are not this one
  have hother : ∀ name ∈ [kContentLength, kUpgrade, kHost],
      icaseCmp (ascii "Connection:" ++ SP :: cString rest 0) name = false := by
    intro name hname
    refine icaseCmp_append_of_false rfl ?_ _
    revert name
    decide
  have hconnection : icaseCmp (ascii "Connection:" ++ SP :: cString rest 0) kConnection = true :=
    icaseCmp_append (by decide) _
  simp only [headerKind, hfront, hkey, hother kContentLength (by simp), hother kUpgrade (by simp),
    hother kHost (by simp), hconnection, Bool.false_eq_true, if_false, if_true]

/-- **The options of a Connection header.** Whatever their order, number and letter case,
    and however many blanks stand around the commas, the line adds exactly the bits of its
    options to the flags, and `PushLine` returns. -/
theorem pushLine_connection_tokens (p : HttpHeaderParser) (tokens : List ConnectionToken)
    (value : Bytes) (hstate : p.state = .Headers)
    (hlist : Spells SP COMMA (tokens.map ConnectionToken.text) value) :
    p.pushLine (ascii "Connection: " ++ (value ++ crlf)) =
      some { p with connectionFlags := p.connectionFlags ||| optionBits tokens } := by
  have hne : ascii "Connection: " ++ (value ++ crlf) ≠ crlf := by
    intro h
    exact absurd (List.cons.inj h).1 (by decide)
  have hfront : nextChar (ascii "Connection: " ++ (value ++ crlf)) 0 (· != SP) = 0 := rfl
  -- the value begins after the blank that the loop takes for granted
  have hvalue : (ascii "Connection: " ++ (value ++ crlf)).drop (0 + (kConnection.length + 1)) =
      value ++ crlf := rfl
  rw [pushLine_connection_iff hstate hne (headerKind_connection _), hfront]
  exact ⟨_, connectionBody_returns p.connectionFlags hlist hvalue, rfl⟩

/-- The line that the test of the parser uses. -/
theorem pushLine_connection_tokens_upgrade_keep_alive :
    ({ state := .Headers } : HttpHeaderParser).pushLine
        (ascii "Connection: " ++ (ascii "Upgrade, keep-alive" ++ crlf)) =
      some { state := .Headers, connectionFlags := ConnectionUpgrade ||| ConnectionKeepAlive } :=
  (pushLine_connection_tokens { state := .Headers }
    [⟨ascii "Upgrade", ConnectionUpgrade, by decide⟩,
      ⟨ascii "keep-alive", ConnectionKeepAlive, by decide⟩]
    (ascii "Upgrade, keep-alive") rfl
    (.cons (ascii "Upgrade") 0 0 (.last (ascii "keep-alive") 1 0))).trans (by decide)

/-! ## The Upgrade loop -/

/-- The name of the WebSocket protocol occurs in the text, letter case aside. -/
def MentionsWebsocket (text : Bytes) : Prop := kUpgradeWs <:+: text.map tolower

instance (text : Bytes) : Decidable (MentionsWebsocket text) :=
  inferInstanceAs (Decidable (kUpgradeWs <:+: text.map tolower))

private theorem kUpgradeWs_lower : kUpgradeWs.map tolower = kUpgradeWs := by decide

/-- The comparison at a place in a line, and the text from there on. -/
private theorem icaseCmp_websocket_iff {line : Bytes} {i : Nat} (hnul : 0 ∉ line)
    (hlf : LF ∈ line.drop i) :
    icaseCmp (cString line i) kUpgradeWs = true ↔ kUpgradeWs <+: (line.drop i).map tolower := by
  have htext : cString line i = line.drop i :=
    takeWhile_ne_zero fun h => hnul ((List.drop_sublist i line).mem h)
  rw [htext, icaseCmp_eq_true_iff_isPrefix hlf (by decide), kUpgradeWs_lower]

/-- The word occurs from a place on when it stands at some place from there on. -/
private theorem mentionsWebsocket_drop (line : Bytes) (iter : Nat) :
    MentionsWebsocket (line.drop (iter + 1)) ↔
      ∃ i < line.length, iter < i ∧ kUpgradeWs <+: (line.drop i).map tolower := by
  rw [MentionsWebsocket, List.infix_iff_prefix_suffix]
  constructor
  · rintro ⟨t, hbegins, hsuffix⟩
    have hlong := hbegins.length_le
    have hshort := hsuffix.length_le
    have hword : kUpgradeWs.length = 9 := by decide
    rw [List.suffix_iff_eq_drop, ← List.map_drop, List.drop_drop] at hsuffix
    simp only [List.length_map, List.length_drop] at hsuffix hshort
    exact ⟨_, by omega, by omega, hsuffix ▸ hbegins⟩
  · rintro ⟨i, -, hlt, hbegins⟩
    obtain ⟨n, rfl⟩ : ∃ n, i = iter + 1 + n := ⟨i - (iter + 1), by omega⟩
    rw [← List.drop_drop] at hbegins
    exact ⟨_, hbegins, (List.drop_suffix n _).map tolower⟩

/-- The loop sets the flag exactly when the text compares equal to the word somewhere from the
    second character on: it looks at every place. -/
theorem upgradeBody_returns_any (line : Bytes) (iter flags : Nat) :
    Loop.Returns (upgradeBody line) (iter, flags)
      (if ∃ i < line.length, iter < i ∧ icaseCmp (cString line i) kUpgradeWs = true then
        flags ||| UpgradeWebSocket
      else flags) := by
  -- induction on what is left of the line
  generalize hn : line.length - iter = n
  induction n using Nat.strongRecOn generalizing iter flags with
  | ind n ih =>
    subst hn
    rcases Nat.lt_or_ge (iter + 1) line.length with hin | hend
    · cases hws : icaseCmp (cString line (iter + 1)) kUpgradeWs with
      | false =>
        have hrest : (∃ i < line.length, iter < i ∧ icaseCmp (cString line i) kUpgradeWs = true) ↔
            ∃ i < line.length, iter + 1 < i ∧ icaseCmp (cString line i) kUpgradeWs = true := by
          constructor
          · rintro ⟨i, hi, hlt, hcmp⟩
            rcases Nat.eq_or_lt_of_le (show iter + 1 ≤ i from hlt) with rfl | hlt
            · exact absurd (hws.symm.trans hcmp) (by decide)
            · exact ⟨i, hi, hlt, hcmp⟩
          · rintro ⟨i, hi, hlt, hcmp⟩
            exact ⟨i, hi, by omega, hcmp⟩
        simp only [hrest]
        exact .of_next (upgradeBody_other flags hin hws) (ih _ (by omega) _ _ rfl)
      | true =>
        rw [if_pos ⟨iter + 1, hin, Nat.lt_succ_self iter, hws⟩]
        rcases upgradeBody_websocket flags hin hws with hround | ⟨iter', hlt, hround⟩
        · exact .of_done hround
        · -- the flag is set, and setting it again changes nothing
          have hrest := ih _ (by omega) iter' (flags ||| UpgradeWebSocket) rfl
          rw [Nat.or_assoc, Nat.or_self, ite_self] at hrest
          exact .of_next hround hrest
    · rw [if_neg]
      · exact .of_done (upgradeBody_end flags hend)
      · rintro ⟨i, hi, hlt, -⟩
        omega

/-- On a line without NUL bytes that is the word itself. -/
theorem upgradeBody_returns {line : Bytes} (hnul : 0 ∉ line)
    (hlf : ∀ i < line.length, LF ∈ line.drop i) (iter flags : Nat) :
    Loop.Returns (upgradeBody line) (iter, flags)
      (if MentionsWebsocket (line.drop (iter + 1)) then flags ||| UpgradeWebSocket
        else flags) := by
  have hword : MentionsWebsocket (line.drop (iter + 1)) ↔
      ∃ i < line.length, iter < i ∧ icaseCmp (cString line i) kUpgradeWs = true := by
    rw [mentionsWebsocket_drop]
    exact exists_congr fun i => and_congr_right fun hi =>
      and_congr_right' (icaseCmp_websocket_iff hnul (hlf i hi)).symm
  simp only [hword]
  exact upgradeBody_returns_any line iter flags

/-! ## The Upgrade line -/

private theorem headerKind_upgrade (rest : Bytes) :
    headerKind (ascii "Upgrade: " ++ rest) = .upgrade := by
  have hfront : nextChar (ascii "Upgrade: " ++ rest) 0 (· != SP) = 0 := rfl
  have hkey : cString (ascii "Upgrade: " ++ rest) 0 = ascii "Upgrade:" ++ SP :: cString rest 0 :=
    rfl
  have hother : icaseCmp (ascii "Upgrade:" ++ SP :: cString rest 0) kContentLength = false :=
    icaseCmp_append_of_false rfl (by decide) _
  have hupgrade : icaseCmp (ascii "Upgrade:" ++ SP :: cString rest 0) kUpgrade = true :=
    icaseCmp_append (by decide) _
  simp only [headerKind, hfront, hkey, hother, hupgrade, Bool.false_eq_true, if_false, if_true]

/-- The line end is no part of the word. -/
theorem mentionsWebsocket_append_crlf (value : Bytes) :
    MentionsWebsocket (value ++ crlf) ↔ MentionsWebsocket value := by
  have hend : ¬ kUpgradeWs <:+: [LF] := by decide
  have hmap : (value ++ crlf).map tolower = value.map tolower ++ CR :: [LF] := by
    rw [List.map_append]
    rfl
  rw [MentionsWebsocket, hmap, infix_append_cons_iff (by decide), or_iff_left hend,
    MentionsWebsocket]

/-- A line of the Upgrade branch sets the flag exactly when the word occurs from the second
    character behind the colon on. -/
theorem pushLine_upgrade_line {p : HttpHeaderParser} {text : Bytes} (hstate : p.state = .Headers)
    (hne : text ++ crlf ≠ crlf) (hnul : 0 ∉ text ++ crlf)
    (hkind : headerKind (text ++ crlf) = .upgrade) :
    p.pushLine (text ++ crlf) = some { p with
      upgradeFlags :=
        if MentionsWebsocket ((text ++ crlf).drop
            (nextChar (text ++ crlf) 0 (· != SP) + kUpgrade.length + 1)) then
          p.upgradeFlags ||| UpgradeWebSocket
        else p.upgradeFlags } := by
  -- the line feed at the end is left at every place of the line
  have hlf : ∀ i < (text ++ crlf).length, LF ∈ (text ++ crlf).drop i := by
    intro i hi
    have hlast : text ++ crlf = (text ++ [CR]) ++ [LF] := by rw [List.append_assoc]; rfl
    rw [hlast, List.length_append] at hi
    rw [hlast, List.drop_append_of_le_length (Nat.le_of_lt_succ hi)]
    exact List.mem_append_right _ List.mem_cons_self
  rw [pushLine_upgrade_iff hstate hne hkind]
  exact ⟨_, upgradeBody_returns hnul hlf _ p.upgradeFlags, rfl⟩

/-- The line sets the flag exactly when the word occurs anywhere in the value. -/
theorem pushLine_upgrade {p : HttpHeaderParser} {value : Bytes} (hstate : p.state = .Headers)
    (hnul : 0 ∉ value) :
    p.pushLine (ascii "Upgrade: " ++ (value ++ crlf)) = some { p with
      upgradeFlags := if MentionsWebsocket value then p.upgradeFlags ||| UpgradeWebSocket
        else p.upgradeFlags } := by
  have hkind := headerKind_upgrade (value ++ crlf)
  have hfront : nextChar (ascii "Upgrade: " ++ (value ++ crlf)) 0 (· != SP) = 0 := rfl
  have hvalue : (ascii "Upgrade: " ++ (value ++ crlf)).drop (0 + kUpgrade.length + 1) =
      value ++ crlf := rfl
  rw [← List.append_assoc] at hkind hfront hvalue ⊢
  have hne : ascii "Upgrade: " ++ value ++ crlf ≠ crlf := by
    intro h
    exact absurd (List.cons.inj h).1 (by decide)
  -- there is no NUL, so a C string of the line goes on to its end
  have hzero : 0 ∉ ascii "Upgrade: " ++ value ++ crlf := by
    rw [List.mem_append, List.mem_append]
    rintro ((h | h) | h)
    · exact absurd h (by decide)
    · exact hnul h
    · exact absurd h (by decide)
  rw [pushLine_upgrade_line hstate hne hzero hkind, hfront, hvalue]
  simp only [mentionsWebsocket_append_crlf]

/-! ## The protocols of an Upgrade header -/

/-- Some protocol of the list is WebSocket, letter case aside. -/
def OffersWebsocket (tokens : List Bytes) : Prop := ∃ t ∈ tokens, t.map tolower = kUpgradeWs

instance (tokens : List Bytes) : Decidable (OffersWebsocket tokens) :=
  inferInstanceAs (Decidable (∃ t ∈ tokens, t.map tolower = kUpgradeWs))

/-- The word has neither a blank nor a comma, so it occurs in a list of protocols exactly
    when it occurs in one of them. -/
theorem mentionsWebsocket_iff {tokens : List Bytes} {value : Bytes}
    (hlist : Spells SP COMMA tokens value) :
    MentionsWebsocket value ↔ ∃ t ∈ tokens, MentionsWebsocket t := by
  have hlower : Spells SP COMMA (tokens.map (List.map tolower)) (value.map tolower) :=
    hlist.map tolower
  rw [MentionsWebsocket, hlower.infix_iff (by decide) (by decide) (by decide)]
  simp [MentionsWebsocket]

theorem OffersWebsocket.mentions {tokens : List Bytes} (h : OffersWebsocket tokens) :
    ∃ t ∈ tokens, MentionsWebsocket t := by
  obtain ⟨t, ht, hname⟩ := h
  exact ⟨t, ht, by rw [MentionsWebsocket, hname]⟩

/-- **The WebSocket flag of an Upgrade header.** The line sets the flag if and only if some
    protocol of the list is WebSocket, unless none is and one has the name inside its own,
    which sets the flag as well. -/
theorem upgrade_flag_iff (p : HttpHeaderParser) (tokens : List Bytes) (value : Bytes)
    (hstate : p.state = .Headers) (hnul : ∀ t ∈ tokens, 0 ∉ t)
    (hlist : Spells SP COMMA tokens value) :
    ∃ p', p.pushLine (ascii "Upgrade: " ++ (value ++ crlf)) = some p' ∧
      (p'.upgradeFlags = (if OffersWebsocket tokens then p.upgradeFlags ||| UpgradeWebSocket
          else p.upgradeFlags) ↔
        p.upgradeFlags ||| UpgradeWebSocket = p.upgradeFlags ∨ OffersWebsocket tokens ∨
          ∀ t ∈ tokens, ¬ MentionsWebsocket t) := by
  have hzero : 0 ∉ value := fun h =>
    hlist.forall_mem (P := (· ≠ 0)) (by decide) (by decide)
      (fun t ht c hc h0 => hnul t ht (h0 ▸ hc)) 0 h rfl
  refine ⟨_, pushLine_upgrade hstate hzero, ?_⟩
  have hmentions := mentionsWebsocket_iff hlist
  dsimp only
  by_cases hoffers : OffersWebsocket tokens
  · -- a list that offers the protocol mentions it
    simp only [hmentions.mpr hoffers.mentions, hoffers, if_true, true_or, or_true]
  by_cases hword : MentionsWebsocket value
  · have hsome := hmentions.mp hword
    simp only [hword, hoffers, if_true, if_false, false_or]
    constructor
    · exact .inl
    · rintro (hset | hnone)
      · exact hset
      · obtain ⟨t, ht, hin⟩ := hsome
        exact absurd hin (hnone t ht)
  · have hnone : ∀ t ∈ tokens, ¬ MentionsWebsocket t :=
      fun t ht hin => hword (hmentions.mpr ⟨t, ht, hin⟩)
    simp only [hword, hoffers, if_false, true_iff]
    exact .inr (.inr hnone)

/-- A list that offers WebSocket after another protocol. -/
theorem upgrade_flag_iff_h2c_websocket :
    ∃ p', ({ state := .Headers } : HttpHeaderParser).pushLine
        (ascii "Upgrade: " ++ (ascii "h2c, WebSocket" ++ crlf)) = some p' ∧
      p'.upgradeFlags = UpgradeWebSocket := by
  have hoffers : OffersWebsocket [ascii "h2c", ascii "WebSocket"] := by decide
  obtain ⟨p', hpush, hiff⟩ := upgrade_flag_iff { state := .Headers }
    [ascii "h2c", ascii "WebSocket"] (ascii "h2c, WebSocket") rfl (by decide)
    (.cons (ascii "h2c") 0 0 (.last (ascii "WebSocket") 1 0))
  refine ⟨p', hpush, ?_⟩
  rw [hiff.mpr (.inr (.inl hoffers)), if_pos hoffers]
  rfl

/-- A protocol that only ends like WebSocket sets the flag. -/
theorem upgrade_flag_xwebsocket :
    let p : HttpHeaderParser := { state := .Headers }
    Spells SP COMMA [ascii "xwebsocket"] (ascii "xwebsocket") ∧
      ¬ OffersWebsocket [ascii "xwebsocket"] ∧ p.upgradeFlags = 0 ∧
      p.pushLine (ascii "Upgrade: " ++ (ascii "xwebsocket" ++ crlf)) =
        some { p with upgradeFlags := UpgradeWebSocket } :=
  ⟨.last (ascii "xwebsocket") 0 0, by decide, rfl, by decide⟩

end Httpoll.Native
