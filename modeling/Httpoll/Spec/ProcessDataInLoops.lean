import Httpoll.ForStd.Lines
import Httpoll.Native.Connection

/-!
# The two loops of `ProcessDataIn`

`PopLine` takes the first CRLF-terminated line off the buffer, so it is `Lines.cut`. The
inner loop of `ProcessDataIn` takes chunks out of the buffer and pushes them into the
parser: lines, and in state `Body` also whole buffers without a line end. The outer loop
reads from the socket.

## Key results

- `popLine_eq_cut`: `PopLine` is the cut at the first CRLF
- `drainBody_takes`, `drainBody_exhausted`, `drainBody_round`: what one round of the inner loop
  does
- `read_cases`: what one `Read` does
- `CallOutline.returned`: the proof rule for a call, from one invariant for each loop
- `CallOutline.processDataIn_ne_none`: a call does not hang when its `PushLine` calls return
-/

namespace Httpoll.Native.Connection

variable {σ : Type}

/-! ## `PopLine` -/

private theorem findNewLine_eq_cut (xs : Bytes) :
    (findNewLine xs).map (fun idx => (xs.take (idx + 2), xs.drop (idx + 2))) =
      Lines.cut CR LF xs := by
  induction xs using findNewLine.induct with
  | case1 c c' rest h => simp [findNewLine, Lines.cut, h]
  | case2 c c' rest h ih =>
    rw [Lines.cut_cons_cons h, ← ih, findNewLine, if_neg h]
    cases findNewLine (c' :: rest) <;> simp
  -- a buffer of at most one byte has no line end
  | case3 xs h =>
    rcases xs with _ | ⟨c, _ | ⟨c', rest⟩⟩
    · rfl
    · rfl
    · exact absurd rfl (h c c' rest)

/-- `PopLine` cuts the buffer after its first CRLF. -/
theorem popLine_eq_cut (c : Connection σ) :
    c.popLine = (Lines.cut CR LF c.buffer).map fun p => (p.1, { c with buffer := p.2 }) := by
  unfold popLine
  split
  · rename_i hshort
    -- `PopLine` does not even look into a buffer that is too short
    rcases hb : c.buffer with _ | ⟨b, _ | ⟨b', rest⟩⟩
    · rfl
    · rfl
    · rw [hb, List.length_cons, List.length_cons] at hshort
      omega
  · rw [← findNewLine_eq_cut]
    cases findNewLine c.buffer <;> rfl

theorem popLine_of_cut {c : Connection σ} {line rest : Bytes}
    (h : Lines.cut CR LF c.buffer = some (line, rest)) :
    c.popLine = some (line, { c with buffer := rest }) := by
  rw [popLine_eq_cut, h]; rfl

theorem popLine_of_cut_none {c : Connection σ} (h : Lines.cut CR LF c.buffer = none) :
    c.popLine = none := by
  rw [popLine_eq_cut, h]; rfl

/-! ## One round of the inner loop -/

/-- The parser asks `ProcessDataIn` to return. -/
def Stops (p : HttpHeaderParser) : Prop := p.state = .Done ∨ p.state = .Body

instance : DecidablePred Stops := fun p =>
  inferInstanceAs (Decidable (p.state = .Done ∨ p.state = .Body))

theorem stateRet_of_not_stops {p : HttpHeaderParser} (h : ¬ Stops p) : stateRet p.state = -1 := by
  unfold Stops at h
  cases hs : p.state with
  | FirstLine | Headers => rfl
  | Body | Done => simp [hs] at h

theorem stateRet_of_stops {p : HttpHeaderParser} (h : Stops p) :
    stateRet p.state = 0 ∨ stateRet p.state = 1 := by
  rcases h with hs | hs <;> rw [hs]
  · exact .inr rfl
  · exact .inl rfl

/-- The next round takes `chunk` out of the buffer, leaves `rest` in it, and `partial_body_`
    is `partialBody` afterwards. -/
inductive Takes (c : Connection σ) : (chunk rest partialBody : Bytes) → Prop where
  /-- A line that `PopLine` finds. -/
  | line {line rest : Bytes} (h : Lines.cut CR LF c.buffer = some (line, rest)) :
    Takes c line rest c.partialBody
  /-- In state `Body`, a buffer without a line end. -/
  | slice (h : Lines.cut CR LF c.buffer = none) (hne : c.buffer ≠ [])
    (hs : c.parser.state = .Body) :
    Takes c (c.buffer.take 1024) (c.buffer.drop 1024) (c.buffer.take 1024)

/-- There is nothing to take out. -/
def Exhausted (c : Connection σ) : Prop :=
  Lines.cut CR LF c.buffer = none ∧ (c.buffer = [] ∨ c.parser.state ≠ .Body)

theorem Takes.buffer_eq {c : Connection σ} {chunk rest pb : Bytes} (h : c.Takes chunk rest pb) :
    c.buffer = chunk ++ rest := by
  cases h with
  | line hcut => exact Lines.eq_append_of_cut hcut
  | slice _ _ _ => exact (List.take_append_drop _ _).symm

theorem Takes.chunk_ne_nil {c : Connection σ} {chunk rest pb : Bytes}
    (h : c.Takes chunk rest pb) : chunk ≠ [] := by
  cases h with
  | line hcut => exact (Lines.isLine_of_cut hcut).ne_nil
  | slice _ hne _ => simp [hne]

/-- Taking a chunk out makes room. -/
theorem Takes.length_rest_lt {c : Connection σ} {chunk rest pb : Bytes}
    (htakes : c.Takes chunk rest pb) : rest.length < c.buffer.length := by
  have hpos := List.length_pos_iff.mpr htakes.chunk_ne_nil
  rw [htakes.buffer_eq, List.length_append]
  omega

theorem exhausted_or_takes (c : Connection σ) :
    c.Exhausted ∨ ∃ chunk rest pb, c.Takes chunk rest pb := by
  cases hcut : Lines.cut CR LF c.buffer with
  | some p => exact .inr ⟨p.1, p.2, _, .line hcut⟩
  | none =>
    by_cases h : c.buffer = [] ∨ c.parser.state ≠ .Body
    · exact .inl ⟨hcut, h⟩
    · rw [not_or, not_not] at h
      exact .inr ⟨_, _, _, .slice hcut h.1 h.2⟩

/-- The log entry of the `PushLine` call that the next round makes with `chunk`. -/
def pushedOf (c : Connection σ) (chunk : Bytes) : Pushed :=
  { state := c.parser.state, buffer := c.buffer, chunk }

/-- The connection after a round. -/
def afterPush (c : Connection σ) (rest partialBody : Bytes) (parser : HttpHeaderParser) :
    Connection σ :=
  { c with buffer := rest, partialBody, parser }

/-- A round that takes a chunk out pushes it, and returns when the parser asks for it. -/
theorem drainBody_takes {c : Connection σ} {chunk rest pb : Bytes} (log : List Pushed)
    (h : c.Takes chunk rest pb) :
    drainBody (c, log) = (c.parser.pushLine chunk).map fun p =>
      if Stops p then .done (.returned (stateRet p.state) (c.afterPush rest pb p)
        (log ++ [c.pushedOf chunk]))
      else .next (c.afterPush rest pb p, log ++ [c.pushedOf chunk]) := by
  cases h with
  | line hcut => simp only [drainBody, popLine_of_cut hcut]; rfl
  | slice hcut hne hs =>
    -- `length_limit` is the shorter of the buffer and 1024 bytes
    have htake : c.buffer.take (min c.buffer.length 1024) = c.buffer.take 1024 := by
      rw [Nat.min_comm, ← List.take_take, List.take_length]
    have hdrop : c.buffer.drop (min c.buffer.length 1024) = c.buffer.drop 1024 := by
      rcases Nat.le_total c.buffer.length 1024 with hle | hge
      · rw [Nat.min_eq_left hle, List.drop_length, List.drop_of_length_le hle]
      · rw [Nat.min_eq_right hge]
    simp only [drainBody, popLine_of_cut_none hcut, hne, if_false, hs, ne_eq, not_true_eq_false,
      htake, hdrop]
    rfl

theorem drainBody_exhausted {c : Connection σ} (log : List Pushed) (h : c.Exhausted) :
    drainBody (c, log) = some (.done (.exhausted c log)) := by
  obtain ⟨hcut, hs⟩ := h
  -- the loop is left for an empty buffer, or by `break` for a partial line
  by_cases hne : c.buffer = []
  · simp only [drainBody, popLine_of_cut_none hcut, hne, if_true]
  · simp only [drainBody, popLine_of_cut_none hcut, hne, if_false]
    rw [if_pos (hs.resolve_left hne)]

/-- What one round can do, and how it ends. -/
inductive DrainRound (c : Connection σ) (log : List Pushed) :
    Loop.Step (Connection σ × List Pushed) (Drained σ) → Prop where
  | exhausted (hex : c.Exhausted) : DrainRound c log (.done (.exhausted c log))
  | stop {chunk rest pb : Bytes} {p : HttpHeaderParser} (htakes : c.Takes chunk rest pb)
    (hp : c.parser.pushLine chunk = some p) (hstop : Stops p) :
    DrainRound c log
      (.done (.returned (stateRet p.state) (c.afterPush rest pb p) (log ++ [c.pushedOf chunk])))
  | push {chunk rest pb : Bytes} {p : HttpHeaderParser} (htakes : c.Takes chunk rest pb)
    (hp : c.parser.pushLine chunk = some p) (hgo : ¬ Stops p) :
    DrainRound c log (.next (c.afterPush rest pb p, log ++ [c.pushedOf chunk]))

theorem drainBody_round {c : Connection σ} {log : List Pushed}
    {step : Loop.Step (Connection σ × List Pushed) (Drained σ)}
    (h : drainBody (c, log) = some step) : DrainRound c log step := by
  rcases c.exhausted_or_takes with hex | ⟨chunk, rest, pb, htakes⟩
  · rw [drainBody_exhausted log hex] at h
    cases h
    exact .exhausted hex
  · rw [drainBody_takes log htakes] at h
    obtain ⟨p, hp, rfl⟩ := Option.map_eq_some_iff.mp h
    split
    · rename_i hstop
      exact .stop htakes hp hstop
    · rename_i hgo
      exact .push htakes hp hgo

/-- A round that goes on has shortened the buffer. -/
theorem drainBody_shortens (s s' : Connection σ × List Pushed)
    (h : drainBody s = some (.next s')) : s'.1.buffer.length < s.1.buffer.length := by
  cases drainBody_round h with
  | push htakes _ _ => exact htakes.length_rest_lt

/-- `drain` has enough fuel. -/
theorem drain_eq_some_iff {c : Connection σ} {log : List Pushed} {d : Drained σ} :
    c.drain log = some d ↔ Loop.Returns drainBody (c, log) d := by
  refine ⟨fun h => ⟨_, h⟩, fun h => ?_⟩
  exact Loop.run_of_measure_or_stuck (fun s => s.1.buffer.length)
    (fun s s' hb => .inl (drainBody_shortens s s' hb)) h

/-! ## One `Read` -/

/-- What a `Read` does to the connection and the stream, by its return value. -/
theorem read_cases (c : Connection σ) (a : Answer) (unread : Bytes) :
    ∃ ret c' unread', c.read (a.read unread c.readLen).1 = (ret, c') ∧
      (a.read unread c.readLen).2 = unread' ∧
      (ret = -1 ∧ c' = c ∧ unread' = unread ∧ (a.Benign → c.readLen = 0) ∨
       ret = 0 ∧ c' = c ∧ unread' = unread ∧ c.readLen ≠ 0 ∨
       ret = 1 ∧ c' = c ∧ unread' = unread ∨
       ret = 1 ∧ ∃ bytes, bytes ≠ [] ∧ bytes.length ≤ c.readLen ∧ unread = bytes ++ unread' ∧
         c' = { c with buffer := c.buffer ++ bytes }) := by
  by_cases hlen : c.readLen = 0
  · -- a `read(2)` of no bytes looks like the end of the stream
    have hread : a.read unread c.readLen = (.data [], unread) := if_pos hlen
    exact ⟨-1, c, unread, by rw [hread]; rfl, by rw [hread], by simp [hlen]⟩
  cases a with
  | ready k =>
    by_cases hnil : unread = []
    · -- an empty socket answers with `EAGAIN`
      exact ⟨0, c, unread, by simp [Answer.read, read, hnil, hlen],
        by simp [Answer.read, hnil, hlen], by simp [hlen]⟩
    · have hread : Answer.read (.ready k) unread c.readLen =
          (.data (unread.take (min (k + 1) c.readLen)), unread.drop (min (k + 1) c.readLen)) := by
        simp only [Answer.read, hlen, hnil, if_false]
      have hne : unread.take (min (k + 1) c.readLen) ≠ [] := by
        simp [List.take_eq_nil_iff, hnil, hlen]
      rw [hread]
      refine ⟨1, _, _, ?_, rfl, .inr (.inr (.inr ⟨rfl, _, hne, ?_,
        (List.take_append_drop _ _).symm, rfl⟩))⟩
      · simp only [read, List.length_pos_iff.mpr hne, if_true]
      · rw [List.length_take]; omega
  | fail e =>
    have hread : Answer.read (.fail e) unread c.readLen = (.error e, unread) := if_neg hlen
    rw [hread]
    cases e with
    | EAGAIN => exact ⟨0, c, unread, rfl, rfl, by simp [hlen]⟩
    | EINTR => exact ⟨1, c, unread, rfl, rfl, by simp⟩
    | other => exact ⟨-1, c, unread, rfl, rfl, by simp [Answer.Benign]⟩
  | closed =>
    have hread : Answer.read .closed unread c.readLen = (.data [], unread) := if_neg hlen
    rw [hread]
    exact ⟨-1, c, unread, rfl, rfl, by simp [Answer.Benign]⟩

/-! ## The proof rule for a call -/

/-- A proof outline of `ProcessDataIn`: `I` holds whenever the outer loop comes round, `J`
    whenever the inner loop does, and `Q` of what the call returns with. The outline is for
    answers of the socket that satisfy `A`. -/
structure CallOutline (A : Answer → Prop) (I J : Connection σ → Bytes → List Pushed → Prop)
    (Q : Int → Connection σ → Bytes → List Pushed → Prop) : Prop where
  /-- `Read` fails or finds the end of the stream. -/
  closed : ∀ {a c unread log}, A a → (a.Benign → c.readLen = 0) → I c unread log →
    Q (-2) c unread log
  /-- `Read` finds nothing. -/
  again : ∀ {c unread log}, c.readLen ≠ 0 → I c unread log →
    Q (stateRet c.parser.state) c unread log
  /-- `Read` is interrupted. -/
  retry : ∀ {c unread log}, I c unread log → J c unread log
  /-- `Read` appends bytes to the buffer. -/
  data : ∀ {c unread log bytes}, bytes ≠ [] → bytes.length ≤ c.readLen →
    I c (bytes ++ unread) log → J { c with buffer := c.buffer ++ bytes } unread log
  /-- The inner loop is left by `break`. -/
  exhausted : ∀ {c unread log}, c.Exhausted → J c unread log → I c unread log
  /-- A chunk is pushed and the inner loop goes on. -/
  push : ∀ {c unread log chunk rest pb p}, c.Takes chunk rest pb →
    c.parser.pushLine chunk = some p → ¬ Stops p → J c unread log →
    J (c.afterPush rest pb p) unread (log ++ [c.pushedOf chunk])
  /-- A chunk is pushed and the call returns. -/
  stop : ∀ {c unread log chunk rest pb p}, c.Takes chunk rest pb →
    c.parser.pushLine chunk = some p → Stops p → J c unread log →
    Q (stateRet p.state) (c.afterPush rest pb p) unread (log ++ [c.pushedOf chunk])

namespace CallOutline

variable {A : Answer → Prop} {I J : Connection σ → Bytes → List Pushed → Prop}
  {Q : Int → Connection σ → Bytes → List Pushed → Prop}

/-- The outline of a property that reading and pushing preserve. -/
theorem ofInvariant {J : Connection σ → Bytes → List Pushed → Prop}
    (data : ∀ {c unread log bytes}, bytes ≠ [] → bytes.length ≤ c.readLen →
      J c (bytes ++ unread) log → J { c with buffer := c.buffer ++ bytes } unread log)
    (push : ∀ {c unread log chunk rest pb p}, c.Takes chunk rest pb →
      c.parser.pushLine chunk = some p → J c unread log →
      J (c.afterPush rest pb p) unread (log ++ [c.pushedOf chunk])) :
    CallOutline (fun _ => True) J J (fun _ c unread log => J c unread log) where
  closed _ _ h := h
  again _ h := h
  retry h := h
  data := data
  exhausted _ h := h
  push htakes hp _ h := push htakes hp h
  stop htakes hp _ h := push htakes hp h

/-- What the outline says of the way the inner loop is left. -/
private def drainedPost (I : Connection σ → Bytes → List Pushed → Prop)
    (Q : Int → Connection σ → Bytes → List Pushed → Prop) (unread : Bytes) : Drained σ → Prop
  | .exhausted c log => I c unread log
  | .returned ret c log => Q ret c unread log

private theorem drained (o : CallOutline A I J Q) {c : Connection σ} {unread : Bytes}
    {log : List Pushed} (hJ : J c unread log) {d : Drained σ} (h : c.drain log = some d) :
    drainedPost I Q unread d := by
  refine Loop.Returns.invariant (I := fun s => J s.1 unread s.2) ?_ ?_ hJ
    (drain_eq_some_iff.mp h)
  -- the inner loop goes on
  · intro ⟨c, log⟩ s' hJ hb
    cases drainBody_round hb with
    | push htakes hp hgo => exact o.push htakes hp hgo hJ
  -- the inner loop is left
  · intro ⟨c, log⟩ d hJ hb
    cases drainBody_round hb with
    | exhausted hex => exact o.exhausted hex hJ
    | stop htakes hp hstop => exact o.stop htakes hp hstop hJ

/-- What the outline says of the outcome of a call. -/
def outcomePost (I : Connection σ → Bytes → List Pushed → Prop)
    (Q : Int → Connection σ → Bytes → List Pushed → Prop) (answers : List Answer) :
    CallResult σ → Prop
  | .returned ret c s log => Q ret c s.unread log ∧ s.answers <:+ answers
  | .unfinished c unread log => I c unread log

private theorem processDataInFrom_post (o : CallOutline A I J Q) {answers : List Answer}
    (hA : ∀ a ∈ answers, A a) {c : Connection σ} {unread : Bytes} {log : List Pushed}
    (hI : I c unread log) {r : CallResult σ}
    (h : processDataInFrom answers c unread log = some r) : outcomePost I Q answers r := by
  -- induction on the answers, with `I` as the invariant of the outer loop
  induction answers generalizing c unread log with
  | nil => simp only [processDataInFrom, Option.some.injEq] at h; subst h; exact hI
  | cons a answers ih =>
    obtain ⟨ret, c', unread', hret, hunread, hcases⟩ := read_cases c a unread
    have htail : answers <:+ a :: answers := List.suffix_cons a answers
    have hA' : ∀ a ∈ answers, A a := fun b hb => hA b (List.mem_cons_of_mem a hb)
    simp only [processDataInFrom, hret, hunread] at h
    -- the inner loop, and the rounds of the outer loop after it
    have hinner : J c' unread' log → ret = 1 → outcomePost I Q (a :: answers) r := by
      intro hJ hone
      simp only [hone, show ¬ (1 : Int) = -1 from by decide, show ¬ (1 : Int) = 0 from by decide,
        if_false] at h
      cases hd : c'.drain log with
      | none => simp only [hd] at h; cases h
      | some d =>
        have hpost := o.drained hJ hd
        cases d with
        | returned ret₁ c₁ log₁ =>
          simp only [hd, Option.some.injEq] at h
          subst h
          exact ⟨hpost, htail⟩
        | exhausted c₁ log₁ =>
          simp only [hd] at h
          have hrest := ih hA' hpost h
          cases r with
          | returned ret₂ c₂ s₂ log₂ => exact ⟨hrest.1, hrest.2.trans htail⟩
          | unfinished c₂ unread₂ log₂ => exact hrest
    rcases hcases with ⟨rfl, rfl, rfl, hlen⟩ | ⟨rfl, rfl, rfl, hlen⟩ | ⟨hone, rfl, rfl⟩ |
        ⟨hone, bytes, hne, hle, rfl, rfl⟩
    · simp only [if_true, Option.some.injEq] at h
      subst h
      exact ⟨o.closed (hA a List.mem_cons_self) hlen hI, htail⟩
    · simp only [show ¬ (0 : Int) = -1 from by decide, if_true, if_false,
        Option.some.injEq] at h
      subst h
      exact ⟨o.again hlen hI, htail⟩
    · exact hinner (o.retry hI) hone
    · exact hinner (o.data hne hle hI) hone

/-- **The rule for a call that returns.** -/
theorem returned (o : CallOutline A I J Q) {c c' : Connection σ} {s s' : Socket} {ret : Int}
    {log : List Pushed} (hA : ∀ a ∈ s.answers, A a) (hI : I c s.unread [])
    (h : c.processDataIn s = some (.returned ret c' s' log)) :
    Q ret c' s'.unread log ∧ s'.answers <:+ s.answers :=
  o.processDataInFrom_post hA hI h

/-- **The rule for a call that is cut off**: it stops before one of its reads. -/
theorem unfinished (o : CallOutline A I J Q) {c c' : Connection σ} {s : Socket} {unread : Bytes}
    {log : List Pushed} (hA : ∀ a ∈ s.answers, A a) (hI : I c s.unread [])
    (h : c.processDataIn s = some (.unfinished c' unread log)) : I c' unread log :=
  o.processDataInFrom_post hA hI h

/-- The inner loop is left when the `PushLine` calls that it makes return. -/
private theorem drain_ne_none (o : CallOutline A I J Q)
    (hpush : ∀ {c unread log chunk rest pb}, c.Takes chunk rest pb → J c unread log →
      c.parser.pushLine chunk ≠ none)
    {c : Connection σ} {unread : Bytes} {log : List Pushed} (hJ : J c unread log) :
    c.drain log ≠ none := by
  -- the buffer gets shorter with each round
  have hends : Loop.Terminates drainBody (c, log) :=
    Loop.terminates_of_measure (fun s => s.1.buffer.length) (I := fun s => J s.1 unread s.2) (by
      intro ⟨c, log⟩ hJ
      rcases c.exhausted_or_takes with hex | ⟨chunk, rest, pb, htakes⟩
      · refine ⟨_, drainBody_exhausted log hex, ?_⟩
        intro s' hs'
        cases hs'
      · obtain ⟨p, hp⟩ := Option.ne_none_iff_exists'.mp (hpush htakes hJ)
        refine ⟨_, by rw [drainBody_takes log htakes, hp, Option.map_some], ?_⟩
        intro s' hs'
        split at hs'
        · cases hs'
        · rename_i hstop
          cases hs'
          exact ⟨o.push htakes hp hstop hJ, htakes.length_rest_lt⟩) hJ
  obtain ⟨d, hd⟩ := hends
  rw [drain_eq_some_iff.mpr hd]
  exact Option.some_ne_none d

private theorem processDataInFrom_ne_none (o : CallOutline A I J Q)
    (hpush : ∀ {c unread log chunk rest pb}, c.Takes chunk rest pb → J c unread log →
      c.parser.pushLine chunk ≠ none)
    (answers : List Answer) {c : Connection σ} {unread : Bytes} {log : List Pushed}
    (hI : I c unread log) : processDataInFrom answers c unread log ≠ none := by
  induction answers generalizing c unread log with
  | nil => simp [processDataInFrom]
  | cons a answers ih =>
    obtain ⟨ret, c', unread', hret, hunread, hcases⟩ := read_cases c a unread
    simp only [processDataInFrom, hret, hunread]
    -- only a `Read` that returns 1 leads to the inner loop
    have hread : ret = -1 ∨ ret = 0 ∨ ret = 1 ∧ J c' unread' log := by
      rcases hcases with ⟨rfl, -⟩ | ⟨rfl, -⟩ | ⟨rfl, rfl, rfl⟩ |
          ⟨rfl, bytes, hne, hle, rfl, rfl⟩
      · exact .inl rfl
      · exact .inr (.inl rfl)
      · exact .inr (.inr ⟨rfl, o.retry hI⟩)
      · exact .inr (.inr ⟨rfl, o.data hne hle hI⟩)
    rcases hread with rfl | rfl | ⟨rfl, hJ⟩
    · simp
    · simp
    · -- neither the inner loop nor the rounds of the outer loop after it hang
      obtain ⟨d, hd⟩ := Option.ne_none_iff_exists'.mp (o.drain_ne_none hpush hJ)
      have hpost := o.drained hJ hd
      cases d with
      | returned ret₁ c₁ log₁ => simp [hd]
      | exhausted c₁ log₁ => simpa [hd] using ih hpost

/-- **The rule for termination.** A call does not hang when every `PushLine` call that the
    invariant of the inner loop allows returns. -/
theorem processDataIn_ne_none (o : CallOutline A I J Q)
    (hpush : ∀ {c unread log chunk rest pb}, c.Takes chunk rest pb → J c unread log →
      c.parser.pushLine chunk ≠ none)
    {c : Connection σ} {s : Socket} (hI : I c s.unread []) : c.processDataIn s ≠ none :=
  o.processDataInFrom_ne_none hpush s.answers hI

end CallOutline

end Httpoll.Native.Connection
