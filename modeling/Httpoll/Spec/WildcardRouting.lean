import Httpoll.ForStd.EcmaRegex
import Httpoll.Spec.Handlers

/-!
# Wildcard routing

`RegisterRequestHandler` turns a pattern into a regular expression, by a `.` before every `*`,
and `FindRequestHandler` matches a URI against all of them in their byte order. For patterns of
stars and characters without a meaning in a regular expression this is glob matching.

## Key results

- `insertDots_returns`: the loop that rewrites a pattern ends, with `insertDots` of it
- `insertDots_injective`: different patterns are rewritten to different keys
- `wildcard_routing`: which handler is found for a URI
-/

namespace Httpoll.Native

open EcmaRegex (metacharacters)

/-! ## The rewriting of patterns -/

/-- A pattern of stars and characters that are no metacharacters. -/
def WildPattern (pattern : Bytes) : Prop := ∀ c ∈ pattern, c = '*'.toUInt8 ∨ c ∉ metacharacters

theorem insertDots_star (p : Bytes) :
    insertDots ('*'.toUInt8 :: p) = '.'.toUInt8 :: '*'.toUInt8 :: insertDots p := by
  rw [insertDots, List.flatMap_cons, if_pos rfl]
  rfl

theorem insertDots_char {c : UInt8} (hc : c ≠ '*'.toUInt8) (p : Bytes) :
    insertDots (c :: p) = c :: insertDots p := by
  rw [insertDots, List.flatMap_cons, if_neg hc]
  rfl

/-- What is inserted at the iterator. -/
private theorem insertIdx_append (xs ys : Bytes) (c : UInt8) :
    (xs ++ ys).insertIdx xs.length c = xs ++ c :: ys := by
  induction xs with
  | nil => rfl
  | cons x xs ih =>
    rw [List.cons_append, List.length_cons, List.insertIdx_succ_cons, ih]
    rfl

/-- **The rewriting loop ends.** It gives `insertDots` of its pattern. -/
theorem insertDots_returns (uri : Bytes) :
    Loop.Returns insertDotsBody (uri, 0) (insertDots uri) := by
  -- the induction is on what comes after the iterator
  have h : ∀ rest done : Bytes,
      Loop.Returns insertDotsBody (done ++ rest, done.length) (done ++ insertDots rest) := by
    intro rest
    induction rest with
    | nil =>
      intro done
      refine .of_done ?_
      rw [insertDotsBody, if_neg (by simp)]
      rfl
    | cons c rest ih =>
      intro done
      have hne : done.length ≠ (done ++ c :: rest).length := by simp
      have hbyte : byteAt (done ++ c :: rest) done.length = c := by
        simp [byteAt, List.getD]
      by_cases hc : c = '*'.toUInt8
      · subst hc
        have hrest := ih (done ++ ['.'.toUInt8, '*'.toUInt8])
        rw [List.append_assoc, List.append_assoc, List.length_append] at hrest
        rw [insertDots_star]
        refine .of_next ?_ hrest
        simp only [insertDotsBody, hne, ne_eq, not_false_eq_true, if_true, hbyte,
          insertIdx_append]
        rfl
      · have hrest := ih (done ++ [c])
        rw [List.append_assoc, List.append_assoc, List.length_append] at hrest
        rw [insertDots_char hc]
        refine .of_next ?_ hrest
        simp only [insertDotsBody, hne, ne_eq, not_false_eq_true, if_true, hbyte, hc, if_false]
        rfl
  exact h uri []

/-- No rewritten pattern begins with a star. -/
theorem insertDots_ne_star (p rest : Bytes) : insertDots p ≠ '*'.toUInt8 :: rest := by
  cases p with
  | nil =>
    intro h
    cases h
  | cons c p =>
    by_cases hc : c = '*'.toUInt8
    · subst hc
      rw [insertDots_star]
      intro h
      exact absurd (List.cons.inj h).1 (by decide)
    · rw [insertDots_char hc]
      exact fun h => hc (List.cons.inj h).1

/-- **Different patterns have different keys.** -/
theorem insertDots_injective {p q : Bytes} (h : insertDots p = insertDots q) : p = q := by
  induction p generalizing q with
  | nil =>
    cases q with
    | nil => rfl
    | cons d q =>
      by_cases hd : d = '*'.toUInt8
      · subst hd
        rw [insertDots_star] at h
        cases h
      · rw [insertDots_char hd] at h
        cases h
  | cons c p ih =>
    cases q with
    | nil =>
      by_cases hc : c = '*'.toUInt8
      · subst hc
        rw [insertDots_star] at h
        cases h
      · rw [insertDots_char hc] at h
        cases h
    | cons d q =>
      -- a dot before a star is never one of the pattern
      by_cases hc : c = '*'.toUInt8
      · subst hc
        by_cases hd : d = '*'.toUInt8
        · subst hd
          rw [insertDots_star, insertDots_star] at h
          rw [ih (List.cons.inj (List.cons.inj h).2).2]
        · rw [insertDots_star, insertDots_char hd] at h
          exact absurd (List.cons.inj h).2.symm (insertDots_ne_star q _)
      · by_cases hd : d = '*'.toUInt8
        · subst hd
          rw [insertDots_star, insertDots_char hc] at h
          exact absurd (List.cons.inj h).2 (insertDots_ne_star p _)
        · rw [insertDots_char hc, insertDots_char hd] at h
          obtain ⟨rfl, hrest⟩ := List.cons.inj h
          rw [ih hrest]

/-! ## The table -/

variable {σ : Type}

private theorem lookup_cons (k : Bytes) (e : Bytes × RequestHandler σ)
    (rest : List (Bytes × RequestHandler σ)) :
    (e :: rest).lookup k = if k = e.1 then some e.2 else rest.lookup k := by
  rw [List.lookup_cons]
  by_cases h : k = e.1
  · rw [if_pos h, beq_iff_eq.mpr h]
  · rw [if_neg h, beq_eq_false_iff_ne.mpr h]

/-- An assignment changes the entry of its key only. -/
theorem HandlerTable.lookup_assign (t : HandlerTable σ) (key : Bytes) (handler : RequestHandler σ)
    (k : Bytes) :
    (t.assign key handler).entries.lookup k =
      if k = key then some handler else t.entries.lookup k := by
  show (assignEntry key handler t.entries).lookup k = _
  induction t.entries with
  | nil => rw [assignEntry, lookup_cons]
  | cons e rest ih =>
    unfold assignEntry
    split
    · -- in the place of the entry with the same key
      rename_i he
      rw [lookup_cons, lookup_cons, he]
      split <;> rfl
    · rename_i hne
      split
      · rw [lookup_cons]
      · rw [lookup_cons, lookup_cons, ih]
        split
        · rename_i hk
          rw [if_neg (hk ▸ hne)]
        · rfl

/-- `handler` is what was registered last under `pattern`. -/
def LastUnder (registers : List (Bytes × RequestHandler σ)) (pattern : Bytes)
    (handler : RequestHandler σ) : Prop :=
  ∃ before after, registers = before ++ (pattern, handler) :: after ∧
    ∀ e ∈ after, e.1 ≠ pattern

theorem lastUnder_iff {registers : List (Bytes × RequestHandler σ)} {pattern : Bytes}
    {handler : RequestHandler σ} :
    LastUnder registers pattern handler ↔ registers.reverse.lookup pattern = some handler := by
  rw [List.lookup_eq_some_iff]
  constructor
  · rintro ⟨before, after, rfl, hafter⟩
    refine ⟨after.reverse, before.reverse, by simp, ?_⟩
    intro e he
    exact bne_iff_ne.mpr (Ne.symm (hafter e (List.mem_reverse.mp he)))
  · rintro ⟨l₁, l₂, hsplit, hl₁⟩
    refine ⟨l₂.reverse, l₁.reverse, ?_, ?_⟩
    · rw [← List.reverse_reverse registers, hsplit]
      simp
    · intro e he
      exact Ne.symm (bne_iff_ne.mp (hl₁ e (List.mem_reverse.mp he)))

/-- The entry of a pattern is what was registered last under it. -/
theorem lookup_registerRequestHandlers (registers : List (Bytes × RequestHandler σ))
    (p : Bytes) (t : HandlerTable σ) :
    (registerRequestHandlers t registers).entries.lookup (insertDots p) =
      (registers.reverse.lookup p).or (t.entries.lookup (insertDots p)) := by
  induction registers generalizing t with
  | nil => rfl
  | cons e registers ih =>
    have hkey : insertDots p = insertDots e.1 ↔ p = e.1 :=
      ⟨insertDots_injective, congrArg insertDots⟩
    show (registerRequestHandlers (registerRequestHandler t e.1 e.2) registers).entries.lookup _ = _
    rw [ih, registerRequestHandler, HandlerTable.lookup_assign, List.reverse_cons,
      List.lookup_append, lookup_cons, List.lookup_nil, Option.or_assoc]
    -- the first registration counts when no later one has the same pattern
    by_cases heq : p = e.1
    · rw [if_pos heq, if_pos (hkey.mpr heq)]
      rfl
    · rw [if_neg heq, if_neg (mt hkey.mp heq)]
      rfl

/-- Every pattern has its entry. -/
theorem exists_entry {registers : List (Bytes × RequestHandler σ)} {e : Bytes × RequestHandler σ}
    (he : e ∈ registers) (t : HandlerTable σ) :
    ∃ handler, (insertDots e.1, handler) ∈ (registerRequestHandlers t registers).entries := by
  obtain ⟨handler, hhandler⟩ : ∃ handler, registers.reverse.lookup e.1 = some handler := by
    refine Option.ne_none_iff_exists'.mp fun hnone => ?_
    have hne := List.lookup_eq_none_iff.mp hnone e (List.mem_reverse.mpr he)
    exact bne_iff_ne.mp hne rfl
  have hlookup := lookup_registerRequestHandlers registers e.1 t
  rw [hhandler, Option.some_or] at hlookup
  obtain ⟨before, after, hsplit, -⟩ := List.lookup_eq_some_iff.mp hlookup
  refine ⟨handler, ?_⟩
  rw [hsplit]
  exact List.mem_append_right before List.mem_cons_self

/-- Every entry is one that was registered, or it was there before. -/
theorem mem_registerRequestHandlers {registers : List (Bytes × RequestHandler σ)}
    {t : HandlerTable σ} {entry : Bytes × RequestHandler σ}
    (h : entry ∈ (registerRequestHandlers t registers).entries) :
    (∃ e ∈ registers, entry = (insertDots e.1, e.2)) ∨ entry ∈ t.entries := by
  induction registers generalizing t with
  | nil => exact .inr h
  | cons e registers ih =>
    rcases ih h with ⟨e', he', heq⟩ | hmem
    · exact .inl ⟨e', List.mem_cons_of_mem e he', heq⟩
    · rcases HandlerTable.eq_or_mem_of_mem_assignEntry hmem with heq | hmem
      · exact .inl ⟨e, List.mem_cons_self, heq⟩
      · exact .inr hmem

/-- The entries before and behind one of the table. -/
theorem HandlerTable.lt_of_split {t : HandlerTable σ}
    {before after : List (Bytes × RequestHandler σ)} {e : Bytes × RequestHandler σ}
    (h : t.entries = before ++ e :: after) :
    (∀ e' ∈ before, e'.1 < e.1) ∧ ∀ e' ∈ after, e.1 < e'.1 := by
  have hsorted := List.pairwise_map.mp t.sorted
  rw [h, List.pairwise_append] at hsorted
  obtain ⟨-, hafter, hbefore⟩ := hsorted
  exact ⟨fun e' he' => hbefore e' he' e List.mem_cons_self, (List.pairwise_cons.mp hafter).1⟩

/-- No key is in the table twice. -/
theorem HandlerTable.lookup_of_mem {t : HandlerTable σ} {e : Bytes × RequestHandler σ}
    (h : e ∈ t.entries) : t.entries.lookup e.1 = some e.2 := by
  obtain ⟨before, after, hsplit⟩ := List.append_of_mem h
  refine List.lookup_eq_some_iff.mpr ⟨before, after, hsplit, ?_⟩
  intro e' he'
  have hlt := (lt_of_split hsplit).1 e' he'
  refine bne_iff_ne.mpr fun heq => ?_
  rw [heq] at hlt
  exact List.lt_irrefl e'.1 hlt

/-! ## Matching -/

/-- The rewritten pattern, read as a regular expression. -/
theorem parse_insertDots {p : Bytes} (hp : WildPattern p) :
    EcmaRegex.parse (insertDots p) =
      some (Glob.toRegex '*'.toUInt8 EcmaRegex.anyChar p) := by
  induction p with
  | nil => rfl
  | cons c p ih =>
    obtain ⟨hc, hrest⟩ := List.forall_mem_cons.mp hp
    have hparse := ih hrest
    by_cases hstar : c = '*'.toUInt8
    · subst hstar
      rw [insertDots_star, Glob.toRegex, if_pos rfl]
      exact EcmaRegex.parse_star rfl hparse
    · -- what follows the character is a dot or another character, not a star
      have hhead : (insertDots p).head? ≠ some EcmaRegex.star := by
        cases p with
        | nil => decide
        | cons d p =>
          by_cases hd : d = '*'.toUInt8
          · subst hd
            rw [insertDots_star]
            exact fun h => absurd (Option.some.inj h) (by decide)
          · rw [insertDots_char hd]
            exact fun h => hd (Option.some.inj h)
      have hmeta : c ∉ metacharacters := hc.resolve_left hstar
      have hdot : c ≠ EcmaRegex.dot := by
        rintro rfl
        exact hmeta (by decide)
      have hatom : EcmaRegex.atom c = some (.char c) := by
        rw [EcmaRegex.atom, if_neg hdot, if_neg hmeta]
      rw [insertDots_char hstar, Glob.toRegex, if_neg hstar]
      exact EcmaRegex.parse_char hatom hhead hparse

namespace Server

variable {regexMatch : Bytes → Bytes → Option Bool}

/-- A rewritten pattern matches what the pattern stands for. -/
theorem regexMatch_insertDots (hregex : EcmaRegex.Implements regexMatch) {p uri : Bytes}
    (hp : WildPattern p) (huri : ∀ c ∈ uri, c ≠ 0 ∧ c ≠ CR ∧ c ≠ LF) :
    regexMatch (insertDots p) uri = some (decide (Glob.Matches '*'.toUInt8 p uri)) := by
  have hline : ∀ c ∈ uri, ¬ EcmaRegex.IsLineTerminator c := by
    rintro c hc (hlf | hcr)
    · exact (huri c hc).2.2 hlf
    · exact (huri c hc).2.1 hcr
  have hiff : uri ∈ (Glob.toRegex '*'.toUInt8 EcmaRegex.anyChar p).matches' ↔
      Glob.Matches '*'.toUInt8 p uri :=
    Glob.mem_toRegex_iff (fun _ => EcmaRegex.mem_anyChar_iff) hline
  rw [hregex _ _ (parse_insertDots hp) uri, Option.some.injEq, Bool.eq_iff_iff,
    RegularExpression.rmatch_iff_matches', hiff, decide_eq_true_iff]

/-- The first entry that matches, when no pattern is refused. -/
theorem findEntry_eq {entries : List (Bytes × RequestHandler σ)} {uri : Bytes}
    (h : ∀ e ∈ entries, ∃ b, regexMatch e.1 uri = some b) :
    findEntry regexMatch uri entries =
      .ok ((entries.find? fun e => regexMatch e.1 uri = some true).map Prod.snd) := by
  induction entries with
  | nil => rfl
  | cons e rest ih =>
    obtain ⟨⟨b, hb⟩, hrest⟩ := List.forall_mem_cons.mp h
    rw [List.find?_cons]
    cases b with
    | true => simp only [findEntry, hb, decide_true, Option.map_some]
    | false =>
      simp only [findEntry, hb, Option.some.injEq, Bool.false_eq_true, decide_false]
      exact ih hrest

/-- The URI as a C-string. -/
theorem cString_eq {uri : Bytes} (h : ∀ c ∈ uri, c ≠ 0) : cString uri 0 = uri := by
  rw [cString, List.drop_zero, List.takeWhile_eq_self_iff]
  exact fun c hc => bne_iff_ne.mpr (h c hc)

/-! ## Routing -/

/-- A matcher, registrations and a URI that the routing is about. -/
structure Routable (regexMatch : Bytes → Bytes → Option Bool)
    (registers : List (Bytes × RequestHandler σ)) (uri : Bytes) : Prop where
  regex : EcmaRegex.Implements regexMatch
  patterns : ∀ e ∈ registers, WildPattern e.1
  uri : ∀ c ∈ uri, c ≠ 0 ∧ c ≠ CR ∧ c ≠ LF

namespace Routable

variable {registers : List (Bytes × RequestHandler σ)} {uri : Bytes}

/-- What an entry of the table matches. -/
private theorem regexMatch_entry (h : Routable regexMatch registers uri)
    {entry : Bytes × RequestHandler σ}
    (hmem : entry ∈ (registerRequestHandlers .empty registers).entries) :
    ∃ e ∈ registers, entry.1 = insertDots e.1 ∧
      regexMatch entry.1 uri = some (decide (Glob.Matches '*'.toUInt8 e.1 uri)) := by
  rcases mem_registerRequestHandlers hmem with ⟨e, he, rfl⟩ | hmem
  · exact ⟨e, he, rfl, regexMatch_insertDots h.regex (h.patterns e he) h.uri⟩
  · exact absurd hmem List.not_mem_nil

/-- The first entry of the table that matches is found. -/
private theorem findRequestHandler_eq (h : Routable regexMatch registers uri) :
    findRequestHandler regexMatch (registerRequestHandlers .empty registers) uri =
      .ok (((registerRequestHandlers .empty registers).entries.find? fun e =>
        regexMatch e.1 uri = some true).map Prod.snd) := by
  rw [findRequestHandler, cString_eq fun c hc => (h.uri c hc).1]
  refine findEntry_eq fun entry hmem => ?_
  obtain ⟨e, -, -, hmatch⟩ := h.regexMatch_entry hmem
  exact ⟨_, hmatch⟩

/-- A pattern that stands for the URI has an entry that matches. -/
private theorem exists_matching_entry (h : Routable regexMatch registers uri)
    {e : Bytes × RequestHandler σ} (he : e ∈ registers) (hglob : Glob.Matches '*'.toUInt8 e.1 uri) :
    ∃ entry ∈ (registerRequestHandlers .empty registers).entries,
      entry.1 = insertDots e.1 ∧ regexMatch entry.1 uri = some true := by
  obtain ⟨handler, hmem⟩ := exists_entry he .empty
  refine ⟨_, hmem, rfl, ?_⟩
  rw [regexMatch_insertDots h.regex (h.patterns e he) h.uri, decide_eq_true hglob]

/-- When no handler is found. -/
theorem findRequestHandler_eq_none_iff (h : Routable regexMatch registers uri) :
    findRequestHandler regexMatch (registerRequestHandlers .empty registers) uri = .ok none ↔
      ∀ e ∈ registers, ¬ Glob.Matches '*'.toUInt8 e.1 uri := by
  rw [h.findRequestHandler_eq, Except.ok.injEq, Option.map_eq_none_iff, List.find?_eq_none]
  constructor
  · intro hnone e he hglob
    obtain ⟨entry, hmem, -, hmatch⟩ := h.exists_matching_entry he hglob
    exact hnone entry hmem (decide_eq_true hmatch)
  · intro hnone entry hmem hmatch
    obtain ⟨e, he, -, hglob⟩ := h.regexMatch_entry hmem
    rw [decide_eq_true_iff, hglob, Option.some.injEq, decide_eq_true_iff] at hmatch
    exact hnone e he hmatch

/-- Which handler is found. -/
theorem exists_findRequestHandler_eq (h : Routable regexMatch registers uri)
    (hsome : ∃ e ∈ registers, Glob.Matches '*'.toUInt8 e.1 uri) :
    ∃ pattern handler, LastUnder registers pattern handler ∧
      Glob.Matches '*'.toUInt8 pattern uri ∧
      (∀ e ∈ registers, Glob.Matches '*'.toUInt8 e.1 uri → insertDots pattern ≤ insertDots e.1) ∧
      findRequestHandler regexMatch (registerRequestHandlers .empty registers) uri =
        .ok (some handler) := by
  -- the entry that the loop stops at
  obtain ⟨entry, hfirst⟩ : ∃ entry, ((registerRequestHandlers .empty registers).entries.find?
      fun e => regexMatch e.1 uri = some true) = some entry := by
    refine Option.ne_none_iff_exists'.mp fun hnone => ?_
    obtain ⟨e, he, hglob⟩ := hsome
    obtain ⟨entry, hmem, -, hmatch⟩ := h.exists_matching_entry he hglob
    exact List.find?_eq_none.mp hnone entry hmem (decide_eq_true hmatch)
  obtain ⟨hmatch, before, after, hsplit, hbefore⟩ := List.find?_eq_some_iff_append.mp hfirst
  have hmem : entry ∈ (registerRequestHandlers .empty registers).entries := by
    rw [hsplit]
    exact List.mem_append_right before List.mem_cons_self
  obtain ⟨e, he, hkey, hglob⟩ := h.regexMatch_entry hmem
  rw [decide_eq_true_iff, hglob, Option.some.injEq, decide_eq_true_iff] at hmatch
  have hlookup := lookup_registerRequestHandlers registers e.1 .empty
  rw [← hkey, HandlerTable.lookup_of_mem hmem] at hlookup
  refine ⟨e.1, entry.2, lastUnder_iff.mpr ?_, hmatch, ?_, ?_⟩
  · exact (hlookup.trans (Option.or_none)).symm
  · -- the entries before it do not match, and those behind it are greater
    intro e' he' hglob'
    obtain ⟨entry', hmem', hkey', hmatch'⟩ := h.exists_matching_entry he' hglob'
    rw [← hkey, ← hkey']
    rw [hsplit] at hmem'
    rcases List.mem_append.mp hmem' with hmem' | hmem'
    · have hno := hbefore entry' hmem'
      rw [hmatch'] at hno
      exact absurd hno (by decide)
    · rcases List.mem_cons.mp hmem' with rfl | hmem'
      · exact List.le_refl _
      · exact Std.le_of_lt ((HandlerTable.lt_of_split hsplit).2 entry' hmem')
  · rw [h.findRequestHandler_eq, hfirst]
    rfl

end Routable

/-- A registration leaves the entries of other patterns alone. -/
theorem lookup_registerRequestHandler_of_ne (table : HandlerTable σ) {p q : Bytes} (hne : p ≠ q)
    (handler : RequestHandler σ) :
    (registerRequestHandler table q handler).entries.lookup (insertDots p) =
      table.entries.lookup (insertDots p) := by
  rw [registerRequestHandler, HandlerTable.lookup_assign,
    if_neg fun h => hne (insertDots_injective h)]

/-- **Wildcard routing.** For patterns of stars and characters that are no metacharacters, and
    a URI without NUL, CR and LF, no handler is found exactly when no pattern stands for the
    URI. Otherwise the handler is found that was registered last under one that does: the one
    that is smallest when rewritten. Different patterns have entries of their own. -/
theorem wildcard_routing (hregex : EcmaRegex.Implements regexMatch)
    {registers : List (Bytes × RequestHandler σ)}
    (hpatterns : ∀ e ∈ registers, WildPattern e.1) {uri : Bytes}
    (huri : ∀ c ∈ uri, c ≠ 0 ∧ c ≠ CR ∧ c ≠ LF) :
    (findRequestHandler regexMatch (registerRequestHandlers .empty registers) uri = .ok none ↔
      ∀ e ∈ registers, ¬ Glob.Matches '*'.toUInt8 e.1 uri) ∧
    ((∃ e ∈ registers, Glob.Matches '*'.toUInt8 e.1 uri) →
      ∃ pattern handler, LastUnder registers pattern handler ∧
        Glob.Matches '*'.toUInt8 pattern uri ∧
        (∀ e ∈ registers, Glob.Matches '*'.toUInt8 e.1 uri → insertDots pattern ≤ insertDots e.1) ∧
        findRequestHandler regexMatch (registerRequestHandlers .empty registers) uri =
          .ok (some handler)) ∧
    ∀ (table : HandlerTable σ) (p q : Bytes) (handler : RequestHandler σ), WildPattern p →
      WildPattern q → p ≠ q →
      (registerRequestHandler table q handler).entries.lookup (insertDots p) =
        table.entries.lookup (insertDots p) := by
  have h : Routable regexMatch registers uri := ⟨hregex, hpatterns, huri⟩
  refine ⟨h.findRequestHandler_eq_none_iff, h.exists_findRequestHandler_eq, ?_⟩
  intro table p q handler _ _ hne
  exact lookup_registerRequestHandler_of_ne table hne handler

/-- Three registrations under two patterns. -/
theorem wildcard_routing_two_patterns :
    let regexMatch := fun pattern text => (EcmaRegex.parse pattern).map (·.rmatch text)
    let first : RequestHandler Unit := {}
    let second : RequestHandler Unit := { wsConnectHook := some fun _ _ => (0, ()) }
    let third : RequestHandler Unit := { wsReadyHook := some fun _ _ => (0, ()) }
    let table := registerRequestHandlers .empty
      [(ascii "/a*", first), (ascii "*b", second), (ascii "/a*", third)]
    findRequestHandler regexMatch table (ascii "/c") = .ok none ∧
      findRequestHandler regexMatch table (ascii "/ac") = .ok (some third) ∧
      findRequestHandler regexMatch table (ascii "/ab") = .ok (some second) := by
  intro regexMatch first second third table
  have hpatterns : ∀ e ∈ [(ascii "/a*", first), (ascii "*b", second), (ascii "/a*", third)],
      WildPattern e.1 := by
    intro e he
    simp only [List.mem_cons, List.not_mem_nil, or_false] at he
    rcases he with rfl | rfl | rfl <;> (unfold WildPattern; decide +kernel)
  -- what was registered last under the two patterns
  have hlast : ∀ pattern handler, LastUnder [(ascii "/a*", first), (ascii "*b", second),
      (ascii "/a*", third)] pattern handler →
      pattern = ascii "/a*" ∧ handler = third ∨ pattern = ascii "*b" ∧ handler = second := by
    intro pattern handler h
    have hlookup := lastUnder_iff.mp h
    obtain ⟨before, after, hsplit, -⟩ := h
    have hmem : (pattern, handler) ∈ before ++ (pattern, handler) :: after :=
      List.mem_append_right before List.mem_cons_self
    rw [← hsplit] at hmem
    have hpattern : pattern = ascii "/a*" ∨ pattern = ascii "*b" := by
      simp only [List.mem_cons, Prod.mk.injEq, List.not_mem_nil, or_false] at hmem
      rcases hmem with ⟨h, -⟩ | ⟨h, -⟩ | ⟨h, -⟩
      · exact .inl h
      · exact .inr h
      · exact .inl h
    rcases hpattern with rfl | rfl
    · exact .inl ⟨rfl, (Option.some.inj hlookup).symm⟩
    · exact .inr ⟨rfl, (Option.some.inj hlookup).symm⟩
  have hnone : ∀ c ∈ ascii "/c", c ≠ 0 ∧ c ≠ CR ∧ c ≠ LF := by decide +kernel
  have hone : ∀ c ∈ ascii "/ac", c ≠ 0 ∧ c ≠ CR ∧ c ≠ LF := by decide +kernel
  have htwo : ∀ c ∈ ascii "/ab", c ≠ 0 ∧ c ≠ CR ∧ c ≠ LF := by decide +kernel
  refine ⟨?_, ?_, ?_⟩
  · refine (wildcard_routing EcmaRegex.implements_rmatch hpatterns hnone).1.mpr ?_
    decide
  · obtain ⟨pattern, handler, hregistered, hglob, -, hfind⟩ :=
      (wildcard_routing EcmaRegex.implements_rmatch hpatterns hone).2.1
        ⟨_, List.mem_cons_self, by decide⟩
    rcases hlast pattern handler hregistered with ⟨rfl, rfl⟩ | ⟨rfl, rfl⟩
    · exact hfind
    · exact absurd hglob (by decide)
  · obtain ⟨pattern, handler, hregistered, hglob, hmin, hfind⟩ :=
      (wildcard_routing EcmaRegex.implements_rmatch hpatterns htwo).2.1
        ⟨_, List.mem_cons_self, by decide⟩
    rcases hlast pattern handler hregistered with ⟨rfl, rfl⟩ | ⟨rfl, rfl⟩
    · exact absurd (hmin (ascii "*b", second) (by simp) (by decide)) (by decide)
    · exact hfind

end Server

end Httpoll.Native
