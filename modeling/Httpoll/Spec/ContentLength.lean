import Httpoll.ForStd.Lines
import Httpoll.Spec.PushLineStates

/-!
# The Content-Length header

On a line without NUL bytes the parser recognises a header by its complete name, and it
reads the number that the line spells, as long as that fits a signed 64-bit integer.

## Key results

- `icaseCmp_header_iff`: the comparison with a header name, on a line without NUL bytes
- `atoi_digits`: `atoi` on blanks, digits, and something else
- `foldlM_headers_declared`: the content length after a block of header lines
-/

namespace Httpoll.Native

open HttpHeaderParser

/-! ## Header names -/

/-- After its leading spaces the line begins with `name` (in lower case, with its colon),
    letter case aside. -/
def Named (name line : Bytes) : Prop :=
  ((line.dropWhile (· == SP)).take name.length).map tolower = name

instance (name line : Bytes) : Decidable (Named name line) :=
  inferInstanceAs (Decidable (_ = name))

theorem takeWhile_ne_zero {t : Bytes} (h : 0 ∉ t) : t.takeWhile (· != 0) = t := by
  rw [List.takeWhile_eq_self_iff]
  intro c hc
  have : c ≠ 0 := fun h0 => h (h0 ▸ hc)
  simpa using this

private theorem CR_mem_dropWhile {line : Bytes} (hl : Lines.IsLine CR LF line) :
    CR ∈ line.dropWhile (· == SP) := by
  obtain ⟨t, rfl⟩ := hl.eq_append_delim
  have hmem : CR ∈ t ++ [CR, LF] := by simp
  rw [← List.takeWhile_append_dropWhile (p := (· == SP)) (l := t ++ [CR, LF]),
    List.mem_append] at hmem
  rcases hmem with hmem | hmem
  · -- the part that is skipped holds spaces only
    exact absurd (List.mem_takeWhile_imp hmem) (by decide)
  · exact hmem

/-- `tolower` gives a character before the small letters for that character only. -/
theorem eq_of_tolower_eq {c d : UInt8} (hd : d.toNat < 97) (h : tolower c = d) : c = d := by
  unfold tolower at h
  split at h
  · rename_i hc
    have h65 : 65 ≤ c.toNat := hc.1
    have h90 : c.toNat ≤ 90 := hc.2
    have hsum := congrArg UInt8.toNat h
    rw [UInt8.toNat_add, show (32 : UInt8).toNat = 32 from rfl, Nat.mod_eq_of_lt (by omega)] at hsum
    omega
  · exact h

/-- On a line without NUL bytes `PushLine` compares complete header names: a text that is
    shorter than the name holds the CR of the line end, which the name does not. -/
theorem icaseCmp_header_iff {line name : Bytes} (hl : Lines.IsLine CR LF line) (hnul : 0 ∉ line)
    (hname : CR ∉ name) (hlower : name.map tolower = name) :
    icaseCmp (cString line (nextChar line 0 (· != SP))) name = true ↔ Named name line := by
  have htext : cString line (nextChar line 0 (· != SP)) = line.dropWhile (· == SP) := by
    rw [cString, drop_nextChar_bne, List.drop_zero]
    exact takeWhile_ne_zero fun h => hnul ((List.dropWhile_sublist _).mem h)
  have hcr : tolower CR ∉ name.map tolower := by
    rw [hlower]
    exact hname
  rw [htext, icaseCmp_eq_true_iff_isPrefix (CR_mem_dropWhile hl) hcr, hlower,
    List.prefix_iff_eq_take, ← List.map_take, Named, eq_comm]

/-- The branch of a header line without NUL bytes, by its name. -/
theorem headerKind_eq {line : Bytes} (hl : Lines.IsLine CR LF line) (hnul : 0 ∉ line) :
    headerKind line =
      if Named kContentLength line then .contentLength
      else if Named kUpgrade line then .upgrade
      else if Named kHost line then .host
      else if Named kConnection line then .connection
      else if Named kUserAgent line then .userAgent
      else .other := by
  unfold headerKind
  dsimp only
  -- each branch compares the line with one of the names
  simp only [icaseCmp_header_iff hl hnul (show CR ∉ kContentLength from by decide) (by decide),
    icaseCmp_header_iff hl hnul (show CR ∉ kUpgrade from by decide) (by decide),
    icaseCmp_header_iff hl hnul (show CR ∉ kHost from by decide) (by decide),
    icaseCmp_header_iff hl hnul (show CR ∉ kConnection from by decide) (by decide),
    icaseCmp_header_iff hl hnul (show CR ∉ kUserAgent from by decide) (by decide)]

theorem headerKind_eq_contentLength_iff {line : Bytes} (hl : Lines.IsLine CR LF line)
    (hnul : 0 ∉ line) : headerKind line = .contentLength ↔ Named kContentLength line := by
  rw [headerKind_eq hl hnul]
  split
  · rename_i h; simp [h]
  · rename_i h
    simp only [h, iff_false]
    split
    · simp
    split
    · simp
    split
    · simp
    split <;> simp

/-! ## The number -/

/-- `atoi` reads the digits after the white space, up to the first other character. -/
theorem atoi_digits {blanks digits tail : Bytes} (hblanks : ∀ c ∈ blanks, isSpace c = true)
    (hne : digits ≠ []) (hdigits : ∀ c ∈ digits, isDigit c = true)
    (htail : ∀ c ∈ tail.head?, isDigit c = false) :
    atoi (blanks ++ digits ++ tail) =
      UInt32.ofNat (min (decimalValue digits) (2 ^ 63 - 1)) := by
  obtain ⟨d, ds, rfl⟩ := List.exists_cons_of_ne_nil hne
  have hd : 48 ≤ d ∧ d ≤ 57 := by simpa [isDigit] using hdigits d List.mem_cons_self
  have h48 : 48 ≤ d.toNat := hd.1
  have h57 : d.toNat ≤ 57 := hd.2
  -- a digit is neither white space nor a sign
  have hspace : isSpace d = false := by
    have hsp : d ≠ SP := by rintro rfl; exact absurd h48 (by decide)
    have h13 : ¬ d ≤ 13 := fun h => absurd (show d.toNat ≤ 13 from h) (by omega)
    simp [isSpace, hsp, h13]
  have hminus : d ≠ 45 := by rintro rfl; exact absurd h48 (by decide)
  have hplus : d ≠ 43 := by rintro rfl; exact absurd h48 (by decide)
  have hskip : (blanks ++ (d :: ds) ++ tail).dropWhile isSpace = d :: (ds ++ tail) := by
    rw [List.append_assoc, List.dropWhile_append_of_pos hblanks, List.cons_append,
      List.dropWhile_cons_of_neg (by simp [hspace])]
  -- the number ends before `tail`
  have htake : (d :: (ds ++ tail)).takeWhile isDigit = d :: ds := by
    rw [← List.cons_append, List.takeWhile_append_of_pos hdigits]
    cases tail with
    | nil => simp
    | cons c rest => rw [List.takeWhile_cons_of_neg (by simp [htail c rfl]), List.append_nil]
  simp only [atoi, hskip, hminus, hplus, if_false, htake]

/-- The line declares a body of `n` bytes: the header's name, white space, and the decimal
    digits of `n`. -/
def DeclaresLength (n : Nat) (line : Bytes) : Prop :=
  ∃ lead name blanks digits tail, line = lead ++ name ++ (blanks ++ digits ++ tail) ∧
    (∀ c ∈ lead, c = SP) ∧ name.map tolower = kContentLength ∧
    (∀ c ∈ blanks, isSpace c = true) ∧ digits ≠ [] ∧ (∀ c ∈ digits, isDigit c = true) ∧
    (∀ c ∈ tail.head?, isDigit c = false) ∧ decimalValue digits = n

/-- The usual spelling: one blank between the colon and the digits. -/
theorem declaresLength_digits {n : Nat} {digits : Bytes} (hne : digits ≠ [])
    (hdigits : digits.all isDigit = true) (hval : decimalValue digits = n) :
    DeclaresLength n (ascii "Content-Length: " ++ digits ++ crlf) := by
  refine ⟨[], ascii "Content-Length:", [SP], digits, crlf, ?_, by simp, by decide, ?_, hne,
    List.all_eq_true.mp hdigits, by simp [crlf, isDigit, CR], hval⟩
  · rw [show ascii "Content-Length: " = ascii "Content-Length:" ++ [SP] from by decide]
    simp
  · simp [isSpace]

private theorem atoi_dropWhile (t : Bytes) : atoi (t.dropWhile (· == SP)) = atoi t := by
  simp only [atoi, dropWhile_blanks (show isSpace SP = true from by decide)]

private theorem dropWhile_lead {lead name rest : Bytes} (hlead : ∀ c ∈ lead, c = SP)
    (hname : name.map tolower = kContentLength) :
    (lead ++ name ++ rest).dropWhile (· == SP) = name ++ rest := by
  rw [List.append_assoc, List.dropWhile_append_of_pos fun c hc => by simp [hlead c hc]]
  cases name with
  | nil => exact absurd hname (by decide)
  | cons c name =>
    have hc : c ≠ SP := by
      rintro rfl
      rw [List.map_cons, show kContentLength = 99 :: kContentLength.tail from by decide] at hname
      exact absurd (List.cons.inj hname).1 (by decide)
    rw [List.cons_append, List.dropWhile_cons_of_neg (by simp [hc])]

theorem DeclaresLength.named {n : Nat} {line : Bytes} (h : DeclaresLength n line) :
    Named kContentLength line := by
  obtain ⟨lead, name, blanks, digits, tail, rfl, hlead, hname, -⟩ := h
  have hlen : name.length = kContentLength.length := by
    simpa using congrArg List.length hname
  rw [Named, dropWhile_lead hlead hname, List.take_left' hlen, hname]

/-- The value that the Content-Length branch reads from the line. -/
theorem DeclaresLength.atoi_eq {n : Nat} {line : Bytes} (h : DeclaresLength n line) :
    atoi (line.drop (nextChar line
      (nextChar line 0 (· != SP) + kContentLength.length) (· != SP))) =
      UInt32.ofNat (min n (2 ^ 63 - 1)) := by
  obtain ⟨lead, name, blanks, digits, tail, rfl, hlead, hname, hblanks, hne, hdigits, htail,
    hval⟩ := h
  have hlen : name.length = kContentLength.length := by
    simpa using congrArg List.length hname
  rw [drop_nextChar_bne, atoi_dropWhile, ← List.drop_drop, drop_nextChar_bne, List.drop_zero,
    dropWhile_lead hlead hname, List.drop_left' hlen, atoi_digits hblanks hne hdigits htail, hval]

/-! ## A block of header lines -/

/-- Lines that are no Content-Length lines leave the content length as it is. -/
theorem foldlM_headers_keep {hs : List Bytes} {p q : HttpHeaderParser}
    (hlines : ∀ l ∈ hs, Lines.IsLine CR LF l ∧ l ≠ crlf ∧ 0 ∉ l)
    (hother : ∀ l ∈ hs, ¬ Named kContentLength l) (hstate : p.state = .Headers)
    (hfold : hs.foldlM pushLine p = some q) :
    q.state = .Headers ∧ q.contentLength = p.contentLength ∧ q.bodyLength = p.bodyLength ∧
      q.method = p.method ∧ q.uri = p.uri := by
  refine foldlM_headers_invariant (I := fun r => r.contentLength = p.contentLength ∧
    r.bodyLength = p.bodyLength ∧ r.method = p.method ∧ r.uri = p.uri)
    (fun l hl => (hlines l hl).2.1) ?_ hstate ⟨rfl, rfl, rfl, rfl⟩ hfold
  -- one line
  intro l hmem fuel r r' hr hpush
  obtain ⟨h₁, h₂, h₃, h₄⟩ := hr
  obtain ⟨hl, -, hnul⟩ := hlines l hmem
  obtain ⟨-, hmethod, huri, -, hbody⟩ := pushHeader_frame hpush
  have hlength := pushHeader_contentLength hpush
  rw [if_neg fun hk => hother l hmem
    ((headerKind_eq_contentLength_iff hl hnul).mp hk)] at hlength
  exact ⟨hlength.trans h₁, hbody.trans h₂, hmethod.trans h₃, huri.trans h₄⟩

/-- The content length after a block of header lines with one that declares it, of any
    number of digits. -/
theorem foldlM_headers_declared {pre post : List Bytes} {line : Bytes} {n : Nat}
    {p q : HttpHeaderParser}
    (hlines : ∀ l ∈ pre ++ line :: post, Lines.IsLine CR LF l ∧ l ≠ crlf ∧ 0 ∉ l)
    (hdecl : DeclaresLength n line) (hother : ∀ l ∈ pre ++ post, ¬ Named kContentLength l)
    (hstate : p.state = .Headers)
    (hfold : (pre ++ line :: post).foldlM pushLine p = some q) :
    q.state = .Headers ∧ q.contentLength = some (UInt32.ofNat (min n (2 ^ 63 - 1))) ∧
      q.bodyLength = p.bodyLength := by
  obtain ⟨p₁, hpre, hfold⟩ := Runs.foldlM_append_eq_some.mp hfold
  obtain ⟨p₂, hline, hpost⟩ := Runs.foldlM_cons_eq_some.mp hfold
  -- the lines before
  obtain ⟨hs₁, -, hb₁, -⟩ := foldlM_headers_keep (fun l h => hlines l (List.mem_append_left _ h))
    (fun l h => hother l (List.mem_append_left _ h)) hstate hpre
  -- the line itself
  obtain ⟨hl, hblank, hnul⟩ := hlines line (List.mem_append_right _ List.mem_cons_self)
  rw [pushLine_header hs₁ hblank] at hline
  obtain ⟨hs₂, -, -, -, hb₂⟩ := pushHeader_frame hline
  have hlength := pushHeader_contentLength hline
  rw [if_pos ((headerKind_eq_contentLength_iff hl hnul).mpr hdecl.named),
    hdecl.atoi_eq] at hlength
  -- the lines after
  obtain ⟨hs₃, hc₃, hb₃, -⟩ := foldlM_headers_keep
    (fun l h => hlines l (List.mem_append_right _ (List.mem_cons_of_mem _ h)))
    (fun l h => hother l (List.mem_append_right _ h)) (hs₂.trans hs₁) hpost
  exact ⟨hs₃, hc₃.trans hlength, hb₃.trans (hb₂.trans hb₁)⟩

end Httpoll.Native
