import Httpoll.Spec.HeaderBlock
import Httpoll.Spec.HeaderRecognition

/-!
# What the parser never takes back

Routing, the upgrade and the handlers read the fields of the parser between and after
`PushLine` calls. This file shows what they can rely on: how the parser after some lines is
related to the parser after more lines.

## Key results

- `Later.of_pushLine`: what one `PushLine` call leaves as it is
- `foldlM_later`: what any number of calls leaves as it is
- `parser_invariant`: both for every sequence of lines that is pushed into a new parser
-/

namespace Httpoll.Native

/-- The order in which the parser goes through its states. -/
def ParserState.rank : ParserState → Nat
  | .FirstLine => 0
  | .Headers => 1
  | .Body => 2
  | .Done => 3

namespace HttpHeaderParser

/-- A parser `p`, and the same parser later on. -/
structure Later (p p' : HttpHeaderParser) : Prop where
  state : p.state.rank ≤ p'.state.rank
  requestLine : p.state ≠ .FirstLine →
    p'.method = p.method ∧ p'.uri = p.uri ∧ p'.version = p.version
  headers : ∀ key value, p.headers.find key = some value → p'.headers.find key = some value
  connectionFlags : ∀ i, p.connectionFlags.testBit i = true → p'.connectionFlags.testBit i = true
  upgradeFlags : ∀ i, p.upgradeFlags.testBit i = true → p'.upgradeFlags.testBit i = true
  contentLength : p.state = .Body ∨ p.state = .Done → p'.contentLength = p.contentLength
  done : p.state = .Done → p' = p

/-- The parser has come to a body only when a length was declared. -/
def BodyDeclared (p : HttpHeaderParser) : Prop := p.state = .Body → p.contentLength ≠ none

variable {p p' : HttpHeaderParser} {line : Bytes}

namespace Later

theorem refl (p : HttpHeaderParser) : Later p p :=
  { state := Nat.le_refl _
    requestLine := fun _ => ⟨rfl, rfl, rfl⟩
    headers := fun _ _ h => h
    connectionFlags := fun _ h => h
    upgradeFlags := fun _ h => h
    contentLength := fun _ => rfl
    done := fun _ => rfl }

/-- The headers are never entered again. -/
theorem state_body_or_done (h : Later p p') (hs : p.state = .Body ∨ p.state = .Done) :
    p'.state = .Body ∨ p'.state = .Done := by
  -- the state only goes forward
  have hrank := h.state
  cases hs' : p'.state with
  | FirstLine | Headers =>
    rw [hs'] at hrank
    cases hs with
    | inl hbody =>
      rw [hbody] at hrank
      exact absurd hrank (by decide)
    | inr hdone =>
      rw [hdone] at hrank
      exact absurd hrank (by decide)
  | Body => exact .inl rfl
  | Done => exact .inr rfl

theorem state_ne_firstLine (h : Later p p') (hs : p.state ≠ .FirstLine) :
    p'.state ≠ .FirstLine := by
  intro hs'
  have hrank := h.state
  rw [hs'] at hrank
  cases hp : p.state with
  | FirstLine => exact hs hp
  | Headers | Body | Done =>
    rw [hp] at hrank
    exact absurd hrank (by decide)

theorem trans {q : HttpHeaderParser} (h : Later p q) (h' : Later q p') : Later p p' :=
  { state := Nat.le_trans h.state h'.state
    requestLine := by
      intro hs
      obtain ⟨hmethod, huri, hversion⟩ := h.requestLine hs
      -- the request line was read before the first step, so before the second one too
      obtain ⟨hmethod', huri', hversion'⟩ := h'.requestLine (h.state_ne_firstLine hs)
      exact ⟨hmethod'.trans hmethod, huri'.trans huri, hversion'.trans hversion⟩
    headers := fun key value hfind => h'.headers key value (h.headers key value hfind)
    connectionFlags := fun i hbit => h'.connectionFlags i (h.connectionFlags i hbit)
    upgradeFlags := fun i hbit => h'.upgradeFlags i (h.upgradeFlags i hbit)
    contentLength := by
      intro hs
      exact (h'.contentLength (h.state_body_or_done hs)).trans (h.contentLength hs)
    done := by
      intro hs
      obtain rfl := h.done hs
      exact h'.done hs }

end Later

/-! ## One call -/

/-- A bit of the flags is kept when they are only added to. -/
private theorem testBit_of_or {m n i : Nat} (h : m ||| n = n) (hbit : m.testBit i = true) :
    n.testBit i = true := by
  rw [← h, Nat.testBit_or, hbit, Bool.true_or]

/-- The loops of the Connection and the Upgrade branch only add to the flags. -/
theorem pushHeader_flags {fuel : Nat} (h : p.pushHeader fuel line = some p') :
    p.connectionFlags ||| p'.connectionFlags = p'.connectionFlags ∧
      p.upgradeFlags ||| p'.upgradeFlags = p'.upgradeFlags := by
  obtain ⟨-, hupgrade, -, hconnection, -⟩ := pushHeader_special h
  by_cases hc : headerKind line = .connection
  · have hu : headerKind line ≠ .upgrade := by
      rw [hc]
      decide
    rw [hupgrade hu]
    refine ⟨?_, Nat.or_self _⟩
    simp only [pushHeader, hc, pushConnection, Option.map_eq_some_iff] at h
    obtain ⟨flags, hrun, rfl⟩ := h
    -- only the loop over the connection options touches the connection flags
    exact connectionBody_keeps ⟨_, hrun⟩
  · rw [hconnection hc]
    refine ⟨Nat.or_self _, ?_⟩
    by_cases hu : headerKind line = .upgrade
    · simp only [pushHeader, hu, pushUpgrade, Option.map_eq_some_iff] at h
      obtain ⟨flags, hrun, rfl⟩ := h
      -- and only the search for `websocket` the upgrade flags
      have hflags := (upgradeBody_returns_any line _ _).unique ⟨_, hrun⟩
      dsimp only
      rw [← hflags]
      split
      · rw [← Nat.or_assoc, Nat.or_self]
      · exact Nat.or_self _
    · rw [hupgrade hu]
      exact Nat.or_self _

/-- A header line only adds: to the flags, and to the map when the key is not there. -/
private theorem Later.of_pushHeader {fuel : Nat} (hs : p.state = .Headers)
    (h : p.pushHeader fuel line = some p') : Later p p' := by
  obtain ⟨hstate, hmethod, huri, hversion, -⟩ := pushHeader_frame h
  obtain ⟨hconnection, hupgrade⟩ := pushHeader_flags h
  exact
    { state := by rw [hstate]
      requestLine := fun _ => ⟨hmethod, huri, hversion⟩
      headers := by
        intro key value hfind
        rw [pushHeader_find h, hfind]
        rfl
      connectionFlags := fun i => testBit_of_or hconnection
      upgradeFlags := fun i => testBit_of_or hupgrade
      contentLength := by simp [hs]
      done := by simp [hs] }

/-- When only the state and the counter of the body change, and the state not backwards. -/
private theorem Later.move {bodyLength : UInt32} {state : ParserState} (hs : p.state ≠ .Done)
    (hle : p.state.rank ≤ state.rank) : Later p { p with bodyLength, state } :=
  { state := hle
    requestLine := fun _ => ⟨rfl, rfl, rfl⟩
    headers := fun _ _ hfind => hfind
    connectionFlags := fun _ hbit => hbit
    upgradeFlags := fun _ hbit => hbit
    contentLength := fun _ => rfl
    done := fun hdone => absurd hdone hs }

private theorem Later.pushBlank (hs : p.state = .Headers) : Later p p.pushBlank := by
  have hne : p.state ≠ .Done := by simp [hs]
  have hstate : p.state.rank ≤ p.pushBlank.state.rank := by
    cases pushBlank_state p with
    | inl h =>
      rw [hs, h.1]
      decide
    | inr h =>
      rw [hs, h.1]
      decide
  exact .move hne hstate

/-- A chunk of the body touches the counter and the state. -/
theorem pushBody_eq (p : HttpHeaderParser) (line : Bytes) :
    p.pushBody line = { p with
      bodyLength := (p.pushBody line).bodyLength, state := (p.pushBody line).state } := by
  unfold pushBody
  cases p.contentLength <;> rfl

private theorem Later.pushBody (hs : p.state = .Body) (line : Bytes) :
    Later p (p.pushBody line) := by
  have hne : p.state ≠ .Done := by simp [hs]
  have hstate : p.state.rank ≤ (p.pushBody line).state.rank := by
    cases pushBody_state hs line with
    | inl h =>
      rw [hs, h]
      decide
    | inr h => rw [hs, h]
  rw [pushBody_eq]
  exact .move hne hstate

/-- **What a call leaves as it is.** -/
theorem Later.of_pushLine (h : p.pushLine line = some p') : Later p p' := by
  cases hs : p.state with
  | FirstLine =>
    rw [pushLine_firstLine hs] at h
    obtain rfl := Option.some.inj h
    exact
      { state := by
          rw [hs]
          exact Nat.zero_le _
        requestLine := fun hne => absurd hs hne
        headers := fun _ _ hfind => hfind
        connectionFlags := fun _ hbit => hbit
        upgradeFlags := fun _ hbit => hbit
        contentLength := fun _ => rfl
        done := by simp [hs] }
  | Headers =>
    -- in state `Headers` a line is a header or ends the block
    by_cases hline : line = crlf
    · rw [hline, pushLine_blank hs] at h
      obtain rfl := Option.some.inj h
      exact .pushBlank hs
    · rw [pushLine_header hs hline] at h
      exact .of_pushHeader hs h
  | Body =>
    rw [pushLine_body hs] at h
    obtain rfl := Option.some.inj h
    exact .pushBody hs line
  | Done =>
    rw [pushLine_done hs] at h
    obtain rfl := Option.some.inj h
    exact .refl p

/-- The counter of the body is left alone outside of the body. -/
theorem pushLine_bodyLength (hs : p.state ≠ .Body) (h : p.pushLine line = some p') :
    p'.bodyLength = p.bodyLength := by
  cases hs' : p.state with
  | FirstLine =>
    rw [pushLine_firstLine hs'] at h
    obtain rfl := Option.some.inj h
    rfl
  | Headers =>
    by_cases hline : line = crlf
    · rw [hline, pushLine_blank hs'] at h
      obtain rfl := Option.some.inj h
      rfl
    · rw [pushLine_header hs' hline] at h
      obtain ⟨-, -, -, -, hlength⟩ := pushHeader_frame h
      exact hlength
  | Body => exact absurd hs' hs
  | Done =>
    rw [pushLine_done hs'] at h
    obtain rfl := Option.some.inj h
    rfl

/-- The empty line leads to the body only when a length was declared, and it stays declared. -/
theorem BodyDeclared.pushLine (hp : p.BodyDeclared) (h : p.pushLine line = some p') :
    p'.BodyDeclared := by
  intro hbody
  cases hs : p.state with
  | FirstLine =>
    rw [pushLine_firstLine hs] at h
    obtain rfl := Option.some.inj h
    rw [pushFirstLine_state] at hbody
    cases hbody
  | Headers =>
    by_cases hline : line = crlf
    · rw [hline, pushLine_blank hs] at h
      obtain rfl := Option.some.inj h
      -- the empty line leads to state `Body` only when a length was declared
      cases pushBlank_state p with
      | inl hdeclared => exact Option.isSome_iff_ne_none.mp hdeclared.2
      | inr hdone =>
        rw [hdone.1] at hbody
        cases hbody
    · rw [pushLine_header hs hline] at h
      obtain ⟨hstate, -⟩ := pushHeader_frame h
      rw [hstate, hs] at hbody
      cases hbody
  | Body =>
    -- a declared length stays
    have hlength := (Later.of_pushLine h).contentLength (.inl hs)
    rw [hlength]
    exact hp hs
  | Done =>
    have heq := (Later.of_pushLine h).done hs
    rw [heq, hs] at hbody
    cases hbody

/-! ## Any number of calls -/

theorem foldlM_later {lines : List Bytes} (h : lines.foldlM pushLine p = some p') : Later p p' :=
  Runs.invariant (I := Later p) (P := fun _ _ => True)
    (fun _ _ _ hq _ hpush => hq.trans (.of_pushLine hpush)) (.refl p)
    (Runs.along_of_forall (fun _ _ _ => trivial) p) h

theorem foldlM_bodyDeclared {lines : List Bytes} (hp : p.BodyDeclared)
    (h : lines.foldlM pushLine p = some p') : p'.BodyDeclared :=
  Runs.invariant (I := BodyDeclared) (P := fun _ _ => True)
    (fun _ _ _ hq _ hpush => hq.pushLine hpush) hp
    (Runs.along_of_forall (fun _ _ _ => trivial) p) h

theorem foldlM_bodyLength {lines : List Bytes}
    (houtside : Runs.Along pushLine (fun q _ => q.state ≠ .Body) p lines)
    (h : lines.foldlM pushLine p = some p') : p'.bodyLength = p.bodyLength :=
  Runs.invariant (I := fun q => q.bodyLength = p.bodyLength)
    (fun _ _ _ hq hs hpush => (pushLine_bodyLength hs hpush).trans hq) rfl houtside h

/-- **The parser only moves forward.** Let `p` be a new parser after some lines, and `p'` the
    same parser after some more. The state has not moved back, and it has not left `Done`; the
    fields of the request line are the same when there was a first line; what was in the header
    map is there with the same value; no flag was cleared; from `Body` and `Done` on the content
    length is the same, and a parser in `Body` has one. When no line was pushed in state `Body`,
    the counter of the body is the same; in `Done` nothing has changed at all. -/
theorem parser_invariant {lines more : List Bytes} {p p' : HttpHeaderParser}
    (h : lines.foldlM pushLine {} = some p) (h' : more.foldlM pushLine p = some p') :
    Later p p' ∧ p.BodyDeclared ∧
      (Runs.Along pushLine (fun q _ => q.state ≠ .Body) p more → p'.bodyLength = p.bodyLength) := by
  have hnew : BodyDeclared {} := by
    intro hbody
    cases hbody
  exact ⟨foldlM_later h', foldlM_bodyDeclared hnew h, fun houtside => foldlM_bodyLength houtside h'⟩

/-- A request whose body comes in two chunks, and a line after its end. -/
theorem parser_invariant_two_chunks :
    let atBody : HttpHeaderParser :=
      { method := .POST
        uri := ascii "/"
        version := .HTTP_1_1
        headers := HeaderMap.empty.emplace (ascii "X") (ascii "1")
        contentLength := some 4
        state := .Body }
    let lines := [ascii "POST / HTTP/1.1\r\n", ascii "X: 1\r\n", ascii "Content-Length: 4\r\n",
      crlf]
    let more := [ascii "ab", ascii "cd", ascii "X: 2\r\n"]
    lines.foldlM pushLine {} = some atBody ∧
      ∃ p', more.foldlM pushLine atBody = some p' ∧ p'.method = .POST ∧
        p'.headers.find (ascii "X") = some (ascii "1") ∧ p'.contentLength = some 4 := by
  intro atBody lines more
  have hlines : lines.foldlM pushLine {} = some atBody := by decide +kernel
  have hmore : more.foldlM pushLine atBody =
      some { atBody with bodyLength := 4, state := .Done } := by decide +kernel
  obtain ⟨hlater, -, -⟩ := parser_invariant hlines hmore
  obtain ⟨hmethod, -, -⟩ := hlater.requestLine (by decide)
  have hheader := hlater.headers (ascii "X") (ascii "1") (by decide +kernel)
  have hlength := hlater.contentLength (.inl rfl)
  exact ⟨hlines, _, hmore, hmethod, hheader, hlength⟩

end HttpHeaderParser

end Httpoll.Native
