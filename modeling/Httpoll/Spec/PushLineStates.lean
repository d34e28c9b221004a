import Httpoll.ForStd.Runs
import Httpoll.Native.HeaderParser

/-!
# `PushLine` state by state

What one `PushLine` call does in each state of the parser, and which fields a header
line leaves alone.

## Key results

- `pushLine_firstLine`, `pushLine_blank`, `pushLine_header`, `pushLine_body`,
  `pushLine_done`: the call in each state
- `pushHeader_branch`: what a header line does, branch by branch
- `pushHeader_frame`: a header line touches neither the request line's fields nor the state
- `pushHeader_special`, `pushHeader_contentLength`, `pushHeader_headers`: the one branch that
  sets each of these
- `foldlM_block`, `exists_of_foldlM_block`: a request line, header lines and the empty line
-/

namespace Httpoll.Native.HttpHeaderParser

variable {p p' : HttpHeaderParser} {line : Bytes}

/-! ## The call in each state -/

theorem pushLine_firstLine (hs : p.state = .FirstLine) (line : Bytes) :
    p.pushLine line = some (p.pushFirstLine line) := by
  simp only [pushLine, pushLineFuel, hs]

theorem pushLine_blank (hs : p.state = .Headers) : p.pushLine crlf = some p.pushBlank := by
  simp only [pushLine, pushLineFuel, hs, if_true]

theorem pushLine_header (hs : p.state = .Headers) (hline : line ≠ crlf) :
    p.pushLine line = p.pushHeader (line.length + 3) line := by
  simp only [pushLine, pushLineFuel, hs, hline, if_false]

theorem pushLine_body (hs : p.state = .Body) (line : Bytes) :
    p.pushLine line = some (p.pushBody line) := by
  simp only [pushLine, pushLineFuel, hs]

theorem pushLine_done (hs : p.state = .Done) (line : Bytes) : p.pushLine line = some p := by
  simp only [pushLine, pushLineFuel, hs]

@[simp] theorem pushFirstLine_state (p : HttpHeaderParser) (line : Bytes) :
    (p.pushFirstLine line).state = .Headers := rfl

/-- The empty line ends the headers. -/
theorem pushBlank_state (p : HttpHeaderParser) :
    p.pushBlank.state = .Body ∧ p.contentLength.isSome = true ∨
      p.pushBlank.state = .Done ∧ p.contentLength = none := by
  unfold pushBlank
  cases p.contentLength <;> simp

/-- A chunk of the body leaves the parser in `Body` or ends the request. -/
theorem pushBody_state (hs : p.state = .Body) (line : Bytes) :
    (p.pushBody line).state = .Done ∨ (p.pushBody line).state = .Body := by
  unfold pushBody
  cases p.contentLength with
  | none => exact .inr hs
  | some n =>
    dsimp only
    split
    · exact .inl rfl
    · exact .inr hs

/-! ## What a header line leaves alone -/

/-- What the branch for a header line does that returns. -/
inductive HeaderBranch (line : Bytes) (p : HttpHeaderParser) :
    HeaderKind → HttpHeaderParser → Prop where
  | contentLength :
    HeaderBranch line p .contentLength (p.pushContentLength line (nextChar line 0 (· != SP)))
  | upgrade (flags : Nat) : HeaderBranch line p .upgrade { p with upgradeFlags := flags }
  | host : HeaderBranch line p .host (p.pushHost line (nextChar line 0 (· != SP)))
  | connection (flags : Nat) : HeaderBranch line p .connection { p with connectionFlags := flags }
  | userAgent : HeaderBranch line p .userAgent (p.pushUserAgent line (nextChar line 0 (· != SP)))
  | other : HeaderBranch line p .other (p.pushOther line (nextChar line 0 (· != SP)))

theorem pushHeader_branch {fuel : Nat} (h : p.pushHeader fuel line = some p') :
    HeaderBranch line p (headerKind line) p' := by
  unfold pushHeader at h
  cases hk : headerKind line with
  | contentLength | host | userAgent | other =>
    simp only [hk, Option.some.injEq] at h
    subst h
    constructor
  | upgrade =>
    simp only [hk, pushUpgrade, Option.map_eq_some_iff] at h
    -- the two loops over tokens give nothing but flags
    obtain ⟨flags, -, rfl⟩ := h
    exact .upgrade flags
  | connection =>
    simp only [hk, pushConnection, Option.map_eq_some_iff] at h
    obtain ⟨flags, -, rfl⟩ := h
    exact .connection flags

/-- The last branch adds to the header map only. -/
private theorem pushOther_eq (p : HttpHeaderParser) (line : Bytes) (iter : Nat) :
    p.pushOther line iter = { p with headers := (p.pushOther line iter).headers } := by
  unfold pushOther
  dsimp only
  split <;> rfl

theorem pushHeader_frame {fuel : Nat} (h : p.pushHeader fuel line = some p') :
    p'.state = p.state ∧ p'.method = p.method ∧ p'.uri = p.uri ∧ p'.version = p.version ∧
      p'.bodyLength = p.bodyLength := by
  have hbranch := pushHeader_branch h
  generalize headerKind line = kind at hbranch
  cases hbranch with
  | contentLength | upgrade | host | connection | userAgent => exact ⟨rfl, rfl, rfl, rfl, rfl⟩
  | other =>
    rw [pushOther_eq]
    exact ⟨rfl, rfl, rfl, rfl, rfl⟩

/-- Each of the fields for a special header is set in the branch of that header only. -/
theorem pushHeader_special {fuel : Nat} (h : p.pushHeader fuel line = some p') :
    (headerKind line ≠ .contentLength → p'.contentLength = p.contentLength) ∧
      (headerKind line ≠ .upgrade → p'.upgradeFlags = p.upgradeFlags) ∧
      (headerKind line ≠ .host → p'.host = p.host) ∧
      (headerKind line ≠ .connection → p'.connectionFlags = p.connectionFlags) ∧
      (headerKind line ≠ .userAgent → p'.userAgent = p.userAgent) := by
  have hbranch := pushHeader_branch h
  generalize headerKind line = kind at hbranch ⊢
  cases hbranch with
  | contentLength | upgrade | host | connection | userAgent =>
    simp [pushContentLength, pushHost, pushUserAgent]
  | other =>
    rw [pushOther_eq]
    simp

/-- Only the Content-Length branch sets the content length. -/
theorem pushHeader_contentLength {fuel : Nat} (h : p.pushHeader fuel line = some p') :
    p'.contentLength =
      if headerKind line = .contentLength then
        some (atoi (line.drop (nextChar line
          (nextChar line 0 (· != SP) + kContentLength.length) (· != SP))))
      else p.contentLength := by
  have hbranch := pushHeader_branch h
  generalize headerKind line = kind at hbranch ⊢
  cases hbranch with
  | contentLength | upgrade | host | connection | userAgent => rfl
  | other =>
    rw [pushOther_eq]
    rfl

/-- Only the last branch adds to the header map. -/
theorem pushHeader_headers {fuel : Nat} (h : p.pushHeader fuel line = some p') :
    p'.headers =
      if headerKind line = .other then
        (p.pushOther line (nextChar line 0 (· != SP))).headers
      else p.headers := by
  have hbranch := pushHeader_branch h
  generalize headerKind line = kind at hbranch ⊢
  cases hbranch with
  | contentLength | upgrade | host | connection | userAgent | other => rfl

/-! ## Several lines -/

theorem foldlM_firstLine (hs : p.state = .FirstLine) (first : Bytes) (lines : List Bytes) :
    (first :: lines).foldlM pushLine p = lines.foldlM pushLine (p.pushFirstLine first) := by
  rw [List.foldlM_cons, pushLine_firstLine hs]
  rfl

/-- What each of the header lines keeps holds after all of them. -/
theorem foldlM_headers_invariant {I : HttpHeaderParser → Prop} {lines : List Bytes}
    (hne : ∀ l ∈ lines, l ≠ crlf)
    (hkeep : ∀ l ∈ lines, ∀ fuel q q', I q → q.pushHeader fuel l = some q' → I q')
    (hs : p.state = .Headers) (hp : I p) (h : lines.foldlM pushLine p = some p') :
    p'.state = .Headers ∧ I p' := by
  refine Runs.invariant (I := fun q => q.state = .Headers ∧ I q) (P := fun _ l => l ∈ lines)
    ?_ ⟨hs, hp⟩ (Runs.along_of_forall (fun l hl _ => hl) p) h
  intro q l q' hq hl hpush
  rw [pushLine_header hq.1 (hne l hl)] at hpush
  exact ⟨(pushHeader_frame hpush).1.trans hq.1, hkeep l hl _ q q' hq.2 hpush⟩

theorem foldlM_headers_state {lines : List Bytes} (hne : ∀ l ∈ lines, l ≠ crlf)
    (hs : p.state = .Headers) (h : lines.foldlM pushLine p = some p') : p'.state = .Headers :=
  (foldlM_headers_invariant (I := fun _ => True) hne (fun _ _ _ _ _ _ _ => trivial) hs trivial h).1

/-- A request line, header lines and the empty line. -/
theorem foldlM_block {first : Bytes} {lines : List Bytes} (hs : p.state = .FirstLine)
    (hs' : p'.state = .Headers) (h : lines.foldlM pushLine (p.pushFirstLine first) = some p') :
    (first :: lines ++ [crlf]).foldlM pushLine p = some p'.pushBlank := by
  rw [List.cons_append, foldlM_firstLine hs, Runs.foldlM_append_of_some h]
  exact Runs.foldlM_cons_eq_some.mpr ⟨_, pushLine_blank hs', rfl⟩

/-- Such a block taken apart. -/
theorem exists_of_foldlM_block {first : Bytes} {lines : List Bytes}
    (hne : ∀ l ∈ lines, l ≠ crlf) (hs : p.state = .FirstLine)
    (h : (first :: lines ++ [crlf]).foldlM pushLine p = some p') :
    ∃ q, lines.foldlM pushLine (p.pushFirstLine first) = some q ∧ q.state = .Headers ∧
      p' = q.pushBlank := by
  rw [List.cons_append, foldlM_firstLine hs, Runs.foldlM_append_eq_some] at h
  obtain ⟨q, hlines, hlast⟩ := h
  have hq := foldlM_headers_state hne (pushFirstLine_state p first) hlines
  obtain ⟨q', hblank, hend⟩ := Runs.foldlM_cons_eq_some.mp hlast
  rw [pushLine_blank hq] at hblank
  refine ⟨q, hlines, hq, ?_⟩
  rw [Option.some.inj hblank]
  exact (Option.some.inj hend).symm

end Httpoll.Native.HttpHeaderParser
