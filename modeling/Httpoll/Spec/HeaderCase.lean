import Httpoll.Spec.ContentLength
import Httpoll.Spec.Dispatch
import Httpoll.Spec.PushLineLoops
import Mathlib.Data.List.Forall2

/-!
# The letter case of header names

Header names have no letter case. The parser compares the five names that it knows without
it, so whether a request asks for an upgrade does not depend on how these are spelled. Every
other header goes into a map under the name as it was sent, and the key of the WebSocket
handshake is looked up there under three spellings.

## Key results

- `headerKind_map_tolower`, `upgradeBody_map_tolower`, `connectionBody_map_tolower`: what the
  parser makes of a line in lower case
- `foldlM_respelled`: blocks that differ in the case of their names lead to the same decision
- `handshake_respelled_iff`: when the key does not depend on the case either
-/

namespace Httpoll.Native

open HttpHeaderParser Connection

/-! ## Lines in lower case -/

private theorem tolower_tolower (c : UInt8) : tolower (tolower c) = tolower c := by
  by_cases h : 65 ≤ c ∧ c ≤ 90
  · have h65 : 65 ≤ c.toNat := h.1
    have h90 : c.toNat ≤ 90 := h.2
    have hsmall : ¬ c + 32 ≤ 90 := by
      intro hle
      have hnat : (c + 32).toNat ≤ 90 := hle
      rw [UInt8.toNat_add, show (32 : UInt8).toNat = 32 from rfl,
        Nat.mod_eq_of_lt (by omega)] at hnat
      omega
    simp only [tolower, if_pos h, hsmall, and_false, if_false]
  · simp only [tolower, if_neg h]

/-- `tolower` makes no difference to the comparison with a character before the letters. -/
private theorem tolower_beq {d : UInt8} (hd : d.toNat < 65) (c : UInt8) :
    (tolower c == d) = (c == d) := by
  have hlow : tolower d = d := by
    have h : ¬ 65 ≤ d := fun h => absurd (show 65 ≤ d.toNat from h) (by omega)
    simp only [tolower, h, false_and, if_false]
  by_cases hc : c = d
  · rw [hc, hlow]
  · rw [beq_false_of_ne hc, beq_false_of_ne fun h => hc (eq_of_tolower_eq (by omega) h)]

private theorem nextChar_map_tolower (line : Bytes) (off : Nat) {pred : UInt8 → Bool}
    (hpred : ∀ c, pred (tolower c) = pred c) :
    nextChar (line.map tolower) off pred = nextChar line off pred := by
  have hnot : (fun c => !pred c) ∘ tolower = fun c => !pred c := by
    funext c
    simp [hpred]
  simp only [nextChar, List.length_map, ← List.map_drop, nextCharFrom_eq, List.takeWhile_map, hnot]

private theorem cString_map_tolower (line : Bytes) (off : Nat) :
    cString (line.map tolower) off = (cString line off).map tolower := by
  have hnul : (· != 0) ∘ tolower = (· != (0 : UInt8)) := by
    funext c
    simp only [Function.comp_apply, bne, tolower_beq (show (0 : UInt8).toNat < 65 from by decide)]
  simp only [cString, ← List.map_drop, List.takeWhile_map, hnul]

private theorem icaseCmp_map_tolower (s w : Bytes) : icaseCmp (s.map tolower) w = icaseCmp s w := by
  have hidem : tolower ∘ tolower = tolower := funext tolower_tolower
  simp only [icaseCmp, List.length_map, ← List.map_take, List.map_map, hidem]

private theorem nextChar_blank (line : Bytes) (off : Nat) :
    nextChar (line.map tolower) off (· != SP) = nextChar line off (· != SP) :=
  nextChar_map_tolower line off fun c => by
    simp only [bne, tolower_beq (show SP.toNat < 65 from by decide)]

private theorem nextChar_comma (line : Bytes) (off : Nat) :
    nextChar (line.map tolower) off (· == COMMA) = nextChar line off (· == COMMA) :=
  nextChar_map_tolower line off (tolower_beq (by decide))

/-- The branch of a line does not depend on its letter case. -/
theorem headerKind_map_tolower (line : Bytes) :
    headerKind (line.map tolower) = headerKind line := by
  simp only [headerKind, nextChar_blank, cString_map_tolower, icaseCmp_map_tolower]

/-- Nor does what the two loops find. -/
theorem upgradeBody_map_tolower (line : Bytes) :
    upgradeBody (line.map tolower) = upgradeBody line := by
  have hany (off : Nat) :
      nextChar (line.map tolower) off (fun c => c != SP || c != CR || c != LF) =
        nextChar line off (fun c => c != SP || c != CR || c != LF) :=
    nextChar_map_tolower line off fun c => by
      simp only [bne, tolower_beq (show SP.toNat < 65 from by decide),
        tolower_beq (show CR.toNat < 65 from by decide),
        tolower_beq (show LF.toNat < 65 from by decide)]
  funext ⟨iter, flags⟩
  simp only [upgradeBody, hany, nextChar_comma, cString_map_tolower, icaseCmp_map_tolower,
    List.length_map]

theorem connectionBody_map_tolower (line : Bytes) :
    connectionBody (line.map tolower) = connectionBody line := by
  funext ⟨iter, flags⟩
  simp only [connectionBody, nextChar_blank, nextChar_comma, cString_map_tolower, findOption,
    icaseCmp_map_tolower, List.length_map]

/-! ## Other letter case in the names -/

/-- The second line is the first one with other letter case in the header name, which is the
    text before the first colon. -/
def Respelled (l l' : Bytes) : Prop :=
  l = l' ∨ ∃ name name' rest, COLON ∉ name ∧ name.map tolower = name'.map tolower ∧
    l = name ++ COLON :: rest ∧ l' = name' ++ COLON :: rest

theorem Respelled.map_tolower {l l' : Bytes} (h : Respelled l l') :
    l.map tolower = l'.map tolower := by
  rcases h with rfl | ⟨name, name', rest, -, hname, rfl, rfl⟩
  · rfl
  · rw [List.map_append, List.map_append, hname]

theorem Respelled.ne_crlf {l l' : Bytes} (h : Respelled l l') (hne : l ≠ crlf) : l' ≠ crlf := by
  rcases h with rfl | ⟨name, name', rest, -, -, rfl, rfl⟩
  · exact hne
  · intro heq
    have hcolon : COLON ∈ name' ++ COLON :: rest := by simp
    rw [heq] at hcolon
    exact absurd hcolon (by decide)

/-- Two parsers within a header block that agree on whether the request asks for an upgrade. -/
structure SameDecision (p p' : HttpHeaderParser) : Prop where
  state : p.state = .Headers
  state' : p'.state = .Headers
  version : p'.version = p.version
  upgradeFlags : p'.upgradeFlags = p.upgradeFlags
  connectionFlags : p'.connectionFlags = p.connectionFlags

/-- A line that goes to none of the branches with a loop. -/
private theorem pushHeader_isSome {line : Bytes} (hupgrade : headerKind line ≠ .upgrade)
    (hconnection : headerKind line ≠ .connection) (fuel : Nat) (p : HttpHeaderParser) :
    ∃ q, p.pushHeader fuel line = some q := by
  unfold pushHeader
  cases hk : headerKind line with
  | upgrade => exact absurd hk hupgrade
  | connection => exact absurd hk hconnection
  | contentLength | host | userAgent | other => exact ⟨_, rfl⟩

/-- One line in two spellings. -/
theorem SameDecision.push {p p' q : HttpHeaderParser} {l l' : Bytes} (h : SameDecision p p')
    (hsame : l.map tolower = l'.map tolower) (hne : l ≠ crlf) (hne' : l' ≠ crlf)
    (hpush : p.pushLine l = some q) : ∃ q', p'.pushLine l' = some q' ∧ SameDecision q q' := by
  have hkind : headerKind l' = headerKind l := by
    rw [← headerKind_map_tolower, ← hsame, headerKind_map_tolower]
  have hfront : nextChar l' 0 (· != SP) = nextChar l 0 (· != SP) := by
    rw [← nextChar_blank, ← hsame, nextChar_blank]
  by_cases hupgrade : headerKind l = .upgrade
  · have hbody : upgradeBody l' = upgradeBody l := by
      rw [← upgradeBody_map_tolower, ← hsame, upgradeBody_map_tolower]
    obtain ⟨flags, hrun, rfl⟩ := (pushLine_upgrade_iff h.state hne hupgrade).mp hpush
    rw [← hbody, ← hfront, ← h.upgradeFlags] at hrun
    refine ⟨_, (pushLine_upgrade_iff h.state' hne' (hkind.trans hupgrade)).mpr ⟨flags, hrun, rfl⟩,
      h.state, h.state', h.version, rfl, h.connectionFlags⟩
  by_cases hconnection : headerKind l = .connection
  · have hbody : connectionBody l' = connectionBody l := by
      rw [← connectionBody_map_tolower, ← hsame, connectionBody_map_tolower]
    obtain ⟨flags, hrun, rfl⟩ := (pushLine_connection_iff h.state hne hconnection).mp hpush
    rw [← hbody, ← hfront, ← h.connectionFlags] at hrun
    refine ⟨_, (pushLine_connection_iff h.state' hne' (hkind.trans hconnection)).mpr
      ⟨flags, hrun, rfl⟩, h.state, h.state', h.version, h.upgradeFlags, rfl⟩
  · -- any other header leaves the flags as they are
    have hupgrade' : headerKind l' ≠ .upgrade := by
      rw [hkind]
      exact hupgrade
    have hconnection' : headerKind l' ≠ .connection := by
      rw [hkind]
      exact hconnection
    rw [pushLine_header h.state hne] at hpush
    obtain ⟨q', hpush'⟩ := pushHeader_isSome hupgrade' hconnection' (l'.length + 3) p'
    obtain ⟨hs, -, -, hv, -⟩ := pushHeader_frame hpush
    obtain ⟨hs', -, -, hv', -⟩ := pushHeader_frame hpush'
    obtain ⟨-, hu, -, hc, -⟩ := pushHeader_special hpush
    obtain ⟨-, hu', -, hc', -⟩ := pushHeader_special hpush'
    refine ⟨q', (pushLine_header h.state' hne').trans hpush', hs.trans h.state, hs'.trans h.state',
      ?_, ?_, ?_⟩
    · rw [hv, hv', h.version]
    · rw [hu hupgrade, hu' hupgrade', h.upgradeFlags]
    · rw [hc hconnection, hc' hconnection', h.connectionFlags]

/-- Two spellings of a block: the parser gets through both, and to the same decision. -/
theorem foldlM_respelled {hs hs' : List Bytes} {p p' q : HttpHeaderParser}
    (hsame : List.Forall₂ Respelled hs hs') (hne : ∀ l ∈ hs, l ≠ crlf) (h : SameDecision p p')
    (hfold : hs.foldlM pushLine p = some q) :
    ∃ q', hs'.foldlM pushLine p' = some q' ∧ SameDecision q q' := by
  induction hsame generalizing p p' with
  | nil =>
    obtain rfl := Option.some.inj hfold
    exact ⟨p', rfl, h⟩
  | @cons l l' hs hs' hl _ ih =>
    obtain ⟨p₁, hpush, hrest⟩ := Runs.foldlM_cons_eq_some.mp hfold
    have hblank := hne l List.mem_cons_self
    obtain ⟨p₁', hpush', h₁⟩ := h.push hl.map_tolower hblank (hl.ne_crlf hblank) hpush
    obtain ⟨q', hfold', hq⟩ := ih (fun l hl => hne l (List.mem_cons_of_mem _ hl)) h₁ hrest
    exact ⟨q', Runs.foldlM_cons_eq_some.mpr ⟨p₁', hpush', hfold'⟩, hq⟩

/-! ## The key of the handshake -/

variable {σ : Type}

/-- With two parsers a connection takes the same decision to upgrade, and finds the same key. -/
def HandshakeAgrees (c : Connection σ) (onMsg : Option (WsHandler σ)) (hook : Option (WsHook σ))
    (p p' : HttpHeaderParser) : Prop :=
  { c with parser := p }.shouldUpgradeWebsocket = { c with parser := p' }.shouldUpgradeWebsocket ∧
    ({ c with parser := p }.upgradeToWebsocket onMsg hook).1.map WebsocketConnection.wsKey =
      ({ c with parser := p' }.upgradeToWebsocket onMsg hook).1.map WebsocketConnection.wsKey

/-- The key that a fresh connection finds. -/
private theorem wsKey_eq {c : Connection σ} (hplain : c.wsConn = none)
    (onMsg : Option (WsHandler σ)) (hook : Option (WsHook σ)) (p : HttpHeaderParser) :
    ({ c with parser := p }.upgradeToWebsocket onMsg hook).1.map WebsocketConnection.wsKey =
      (wsKeyNames.map p.getHeader).find? (· != []) := by
  simp only [upgradeToWebsocket, hplain]
  cases (wsKeyNames.map p.getHeader).find? (· != []) <;> rfl

private theorem wsKey_eq_none_iff (p : HttpHeaderParser) :
    (wsKeyNames.map p.getHeader).find? (· != []) = none ↔
      ∀ name ∈ wsKeyNames, p.getHeader name = [] := by
  simp

theorem SameDecision.shouldUpgrade {p p' : HttpHeaderParser} (h : SameDecision p p')
    (c : Connection σ) :
    { c with parser := p }.shouldUpgradeWebsocket =
      { c with parser := p' }.shouldUpgradeWebsocket := by
  simp only [shouldUpgradeWebsocket, h.version, h.upgradeFlags, h.connectionFlags]

/-! ## Two spellings of a name -/

/-- The value does not depend on how the name is spelled. -/
private theorem headerField_respell {name name' rest value : Bytes} (hcolon' : COLON ∉ name')
    (hname : name.map tolower = name'.map tolower) (hcolon : COLON ∉ name)
    (h : headerField (name ++ COLON :: rest) = some (name, value)) :
    headerField (name' ++ COLON :: rest) = some (name', value) := by
  have hkind : headerKind (name' ++ COLON :: rest) = headerKind (name ++ COLON :: rest) := by
    rw [← headerKind_map_tolower, List.map_append, ← hname, ← List.map_append,
      headerKind_map_tolower]
  rw [headerField_append hcolon] at h
  rw [headerField_append hcolon', hkind]
  split at h
  · rename_i hother
    rw [if_pos hother, ← (Prod.mk.inj (Option.some.inj h)).2]
  · cases h

/-- A line with a field is its key, a colon and something else. -/
private theorem exists_of_headerField {l name value : Bytes}
    (h : headerField l = some (name, value)) :
    ∃ rest, l = name ++ COLON :: rest ∧ COLON ∉ name := by
  by_cases hmem : COLON ∈ l
  · obtain ⟨key, rest, rfl, hkey⟩ := List.eq_append_cons_of_mem hmem
    rw [headerField_append hkey] at h
    split at h
    · obtain ⟨rfl, -⟩ := Prod.mk.inj (Option.some.inj h)
      exact ⟨rest, rfl, hkey⟩
    · cases h
  · rw [headerField_eq_none hmem] at h
    cases h

private theorem colon_not_mem_lower {name : Bytes} (hcolon : COLON ∉ name) :
    COLON ∉ name.map tolower := by
  intro h
  obtain ⟨c, hc, hlow⟩ := List.mem_map.mp h
  obtain rfl := eq_of_tolower_eq (by decide) hlow
  exact hcolon hc

/-- Every line has a spelling in which its key is in lower case. -/
private theorem exists_lower_line (l : Bytes) :
    ∃ l', Respelled l l' ∧ ∀ name value, headerField l' = some (name, value) →
      name.map tolower = name := by
  have hidem : tolower ∘ tolower = tolower := funext tolower_tolower
  by_cases hmem : COLON ∈ l
  -- the name is what stands before the first colon
  · obtain ⟨key, rest, rfl, hkey⟩ := List.eq_append_cons_of_mem hmem
    refine ⟨key.map tolower ++ COLON :: rest, .inr ⟨key, key.map tolower, rest, hkey, ?_, rfl, rfl⟩,
      ?_⟩
    · rw [List.map_map, hidem]
    · intro name value hfield
      rw [headerField_append (colon_not_mem_lower hkey)] at hfield
      split at hfield
      · rw [← (Prod.mk.inj (Option.some.inj hfield)).1, List.map_map, hidem]
      · cases hfield
  · refine ⟨l, .inl rfl, ?_⟩
    intro name value hfield
    rw [headerField_eq_none hmem] at hfield
    cases hfield

private theorem exists_lower_block (hs : List Bytes) :
    ∃ hs', List.Forall₂ Respelled hs hs' ∧
      ∀ field ∈ headerFields hs', field.1.map tolower = field.1 := by
  induction hs with
  | nil => exact ⟨[], .nil, by simp [headerFields]⟩
  | cons l hs ih =>
    obtain ⟨l', hl, hlower⟩ := exists_lower_line l
    obtain ⟨hs', hsame, hall⟩ := ih
    refine ⟨l' :: hs', .cons hl hsame, ?_⟩
    intro field hfield
    rw [headerFields, List.filterMap_cons] at hfield
    -- a line without a colon adds no field
    cases hline : headerField l' with
    | none =>
      rw [hline] at hfield
      exact hall field hfield
    | some e =>
      rw [hline] at hfield
      rcases List.mem_cons.mp hfield with rfl | hfield
      · exact hlower _ _ hline
      · exact hall field hfield

/-- A name that is looked up is not in lower case, so a block in lower case has no such key. -/
private theorem lookup_lower {fields : List (Bytes × Bytes)}
    (hlower : ∀ field ∈ fields, field.1.map tolower = field.1) {name : Bytes}
    (hname : name ∈ wsKeyNames) : fields.lookup name = none := by
  rw [List.lookup_eq_none_iff]
  intro field hfield
  have hupper : ∀ name ∈ wsKeyNames, name.map tolower ≠ name := by decide
  rw [bne_iff_ne]
  rintro rfl
  exact hupper _ hname (hlower field hfield)

theorem Parsed.getHeader_eq {first : Bytes} {hs : List Bytes} {p : HttpHeaderParser}
    (h : Parsed first hs p) (name : Bytes) :
    p.getHeader name = ((headerFields hs).lookup name).getD [] := by
  rw [getHeader, h.headers name]

/-! ## When the case makes no difference -/

/-- The block has a value under a name that is looked up, in whatever spelling. -/
def OffersKey (hs : List Bytes) : Prop :=
  ∃ l ∈ hs, ∃ name value, headerField l = some (name, value) ∧
    name.map tolower ∈ wsKeyNames.map (List.map tolower) ∧ value ≠ []

/-- Without such a value no spelling of the block gives a key. -/
private theorem getHeader_of_not_offersKey {first : Bytes} {hs hs' : List Bytes}
    {p : HttpHeaderParser} (h : ¬ OffersKey hs) (hsame : List.Forall₂ Respelled hs hs')
    (hparsed : Parsed first hs' p) {name : Bytes} (hname : name ∈ wsKeyNames) :
    p.getHeader name = [] := by
  rw [hparsed.getHeader_eq]
  cases hfind : (headerFields hs').lookup name with
  | none => rfl
  | some value =>
    -- the line that the value comes from is a spelling of a line of the block
    obtain ⟨pre, post, heq, -⟩ := List.lookup_eq_some_iff.mp hfind
    have hmem : (name, value) ∈ headerFields hs' := by simp [heq]
    obtain ⟨l', hl', hfield'⟩ := List.mem_filterMap.mp hmem
    obtain ⟨l, hl, hrespelled⟩ : ∃ l ∈ hs, Respelled l l' := by
      obtain ⟨i, hi, rfl⟩ := List.getElem_of_mem hl'
      have hi' : i < hs.length := hsame.length_eq ▸ hi
      exact ⟨hs[i], List.getElem_mem _, hsame.get hi' hi⟩
    by_contra hvalue
    refine h ⟨l, hl, ?_⟩
    rcases hrespelled with rfl | ⟨key, key', rest, hkey, hcase, rfl, rfl⟩
    · exact ⟨name, value, hfield', List.mem_map_of_mem hname, hvalue⟩
    · have hkey' : COLON ∉ key' := by
        intro hmem
        have hlow : COLON ∈ key.map tolower := by
          rw [hcase]
          exact List.mem_map.mpr ⟨COLON, hmem, by decide⟩
        exact colon_not_mem_lower hkey hlow
      have hval := hfield'
      rw [headerField_append hkey'] at hval
      split at hval
      · obtain ⟨rfl, -⟩ := Prod.mk.inj (Option.some.inj hval)
        exact ⟨key, value, headerField_respell hkey hcase.symm hkey' hfield',
          by rw [hcase]; exact List.mem_map_of_mem hname, hvalue⟩
      · cases hval

/-- With such a value one spelling of the block gives a key and another one does not. -/
private theorem exists_spellings {hs : List Bytes} (h : OffersKey hs) :
    ∃ hs₁ hs₂, List.Forall₂ Respelled hs hs₁ ∧ List.Forall₂ Respelled hs hs₂ ∧
      (∀ name ∈ wsKeyNames, (headerFields hs₁).lookup name = none) ∧
      ∃ name ∈ wsKeyNames, ∃ value ≠ [], (headerFields hs₂).lookup name = some value := by
  obtain ⟨l, hl, key, value, hfield, hkey, hvalue⟩ := h
  obtain ⟨name, hname, hcase⟩ := List.mem_map.mp hkey
  obtain ⟨pre, post, rfl⟩ := List.append_of_mem hl
  obtain ⟨rest, rfl, hcolon⟩ := exists_of_headerField hfield
  obtain ⟨lower, hsame, hlower⟩ := exists_lower_block (pre ++ (key ++ COLON :: rest) :: post)
  obtain ⟨pre', hpre, hlowerPre⟩ := exists_lower_block pre
  have hcolon' : COLON ∉ name := by
    have hnone : ∀ name ∈ wsKeyNames, COLON ∉ name := by decide
    exact hnone name hname
  refine ⟨lower, pre' ++ (name ++ COLON :: rest) :: post, hsame, ?_,
    fun name hname => lookup_lower hlower hname, name, hname, value, hvalue, ?_⟩
  · -- this spelling has the name as it is looked up
    exact List.rel_append hpre (.cons (.inr ⟨key, name, rest, hcolon, hcase.symm, rfl, rfl⟩)
      (List.forall₂_same.mpr fun _ _ => .inl rfl))
  · have hline := headerField_respell hcolon' hcase.symm hcolon hfield
    have hfirst : (headerFields pre').lookup name = none := lookup_lower hlowerPre hname
    rw [headerFields] at hfirst
    rw [headerFields, List.filterMap_append, List.lookup_append, hfirst, List.filterMap_cons, hline,
      Option.none_or, List.lookup_cons_self]

/-- **Header names and the handshake.** However the names of a header block are spelled, the
    decision to upgrade is the same. The key that is found is the same too if and only if the
    connection is upgraded already or the block has no value under a name of the key. -/
theorem handshake_respelled_iff (c : Connection σ) (onMsg : Option (WsHandler σ))
    (hook : Option (WsHook σ)) (first : Bytes) (hs : List Bytes) (p : HttpHeaderParser)
    (hne : ∀ l ∈ hs, l ≠ crlf) (hfold : (first :: hs).foldlM pushLine {} = some p) :
    (∀ hs', List.Forall₂ Respelled hs hs' →
        ∃ p', (first :: hs').foldlM pushLine {} = some p' ∧ HandshakeAgrees c onMsg hook p p') ↔
      (c.wsConn = none → ¬ OffersKey hs) := by
  -- every spelling is parsed to its end
  have hspell : ∀ hs', List.Forall₂ Respelled hs hs' →
      ∃ p', (first :: hs').foldlM pushLine {} = some p' ∧ SameDecision p p' ∧
        Parsed first hs' p' := by
    intro hs' hsame
    have hne' : ∀ l ∈ hs', l ≠ crlf := by
      intro l' hl'
      obtain ⟨i, hi, rfl⟩ := List.getElem_of_mem hl'
      have hi' : i < hs.length := hsame.length_eq ▸ hi
      exact (hsame.get hi' hi).ne_crlf (hne _ (List.getElem_mem hi'))
    have hrest := (foldlM_firstLine rfl first hs).symm.trans hfold
    obtain ⟨p', hrest', hp'⟩ := foldlM_respelled hsame hne ⟨rfl, rfl, rfl, rfl, rfl⟩ hrest
    have hfold' := (foldlM_firstLine rfl first hs').trans hrest'
    exact ⟨p', hfold', hp', .of_block hne' hfold'⟩
  constructor
  · rintro hagrees hplain hoffers
    obtain ⟨hs₁, hs₂, hsame₁, hsame₂, hnone, name, hname, value, hvalue, hsome⟩ :=
      exists_spellings hoffers
    obtain ⟨p₁, hfold₁, -, hkey₁⟩ := hagrees hs₁ hsame₁
    obtain ⟨p₂, hfold₂, -, hkey₂⟩ := hagrees hs₂ hsame₂
    obtain ⟨p₁', hfold₁', -, hparsed₁⟩ := hspell hs₁ hsame₁
    obtain ⟨p₂', hfold₂', -, hparsed₂⟩ := hspell hs₂ hsame₂
    obtain rfl := Option.some.inj (hfold₁.symm.trans hfold₁')
    obtain rfl := Option.some.inj (hfold₂.symm.trans hfold₂')
    have hsame := hkey₁.symm.trans hkey₂
    rw [wsKey_eq hplain, wsKey_eq hplain, (wsKey_eq_none_iff p₁).mpr fun name hname => by
      rw [hparsed₁.getHeader_eq, hnone name hname]; rfl] at hsame
    have hempty := (wsKey_eq_none_iff p₂).mp hsame.symm name hname
    rw [hparsed₂.getHeader_eq, hsome] at hempty
    exact hvalue hempty
  · intro hnot hs' hsame
    obtain ⟨p', hfold', hp', hparsed'⟩ := hspell hs' hsame
    refine ⟨p', hfold', hp'.shouldUpgrade c, ?_⟩
    by_cases hplain : c.wsConn = none
    · have hkey := hnot hplain
      have hsame' : List.Forall₂ Respelled hs hs := List.forall₂_same.mpr fun _ _ => .inl rfl
      have hparsed : Parsed first hs p := .of_block hne hfold
      rw [wsKey_eq hplain, wsKey_eq hplain, (wsKey_eq_none_iff p).mpr fun name hname =>
          getHeader_of_not_offersKey hkey hsame' hparsed hname,
        (wsKey_eq_none_iff p').mpr fun name hname =>
          getHeader_of_not_offersKey hkey hsame hparsed' hname]
    · -- an upgraded connection does not look for a key
      obtain ⟨ws, hws⟩ := Option.ne_none_iff_exists'.mp hplain
      simp only [upgradeToWebsocket, hws]

private def getFirst : Bytes := ascii "GET / HTTP/1.1\r\n"

/-- A request without a key. -/
theorem handshake_respelled_no_key :
    ∃ p, [getFirst, ascii "Upgrade: websocket\r\n"].foldlM pushLine {} = some p ∧
      ∀ hs', List.Forall₂ Respelled [ascii "Upgrade: websocket\r\n"] hs' →
        ∃ p', (getFirst :: hs').foldlM pushLine {} = some p' ∧
          HandshakeAgrees ({ fd := 4 } : Connection Unit) none none p p' := by
  obtain ⟨p, hp⟩ := Option.isSome_iff_exists.mp
    (show ([getFirst, ascii "Upgrade: websocket\r\n"].foldlM pushLine {}).isSome = true from
      by decide +kernel)
  refine ⟨p, hp, (handshake_respelled_iff { fd := 4 } none none getFirst _ p (by decide) hp).mpr ?_⟩
  rintro - ⟨l, hl, name, value, hfield, -⟩
  obtain rfl := List.mem_singleton.mp hl
  have hnone : headerField (ascii "Upgrade: websocket\r\n") = none := by decide
  rw [hnone] at hfield
  cases hfield

/-- The same request with the name of the key in lower case: the server decides to upgrade, and
    finds no key. -/
theorem handshake_key_in_lower_case :
    let c : Connection Unit := { fd := 4 }
    let block (key : String) : List Bytes :=
      [ascii "Connection: Upgrade\r\n", ascii "Upgrade: websocket\r\n", ascii key]
    let result (hs : List Bytes) := ((getFirst :: hs).foldlM pushLine {}).map fun p =>
      ({ c with parser := p }.shouldUpgradeWebsocket,
        ({ c with parser := p }.upgradeToWebsocket none none).1.map WebsocketConnection.wsKey)
    List.Forall₂ Respelled (block "Sec-WebSocket-Key: abc\r\n")
        (block "sec-websocket-key: abc\r\n") ∧
      result (block "Sec-WebSocket-Key: abc\r\n") = some (true, some (ascii "abc")) ∧
      result (block "sec-websocket-key: abc\r\n") = some (true, none) := by
  refine ⟨.cons (.inl rfl) (.cons (.inl rfl) (.cons (.inr ?_) .nil)), by decide +kernel,
    by decide +kernel⟩
  exact ⟨ascii "Sec-WebSocket-Key", ascii "sec-websocket-key", ascii " abc\r\n", by decide,
    by decide, rfl, rfl⟩

end Httpoll.Native
