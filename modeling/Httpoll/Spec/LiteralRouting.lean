import Httpoll.ForStd.EcmaGroups
import Httpoll.Spec.WildcardRouting

/-!
# Routes without a star

`RegisterRequestHandler` rewrites the stars of a URI and nothing else, so a URI without stars is
its own key, and `FindRequestHandler` compiles it as a regular expression. It finds itself, and
nothing but itself, when it has no metacharacters. In the part of the grammar that is modelled
there are no others that do.

## Key results

- `findRequestHandler_one_eq_some_iff`, `findRequestHandler_one_eq_none_iff`: a table of one URI
- `literal_routing`: which URIs find themselves only
-/

namespace Httpoll.Native

open EcmaRegex (metacharacters)

/-- Nothing is inserted without a star. -/
theorem insertDots_eq_self {u : Bytes} (hu : ∀ c ∈ u, c ≠ '*'.toUInt8) : insertDots u = u := by
  induction u with
  | nil => rfl
  | cons c u ih =>
    obtain ⟨hc, hrest⟩ := List.forall_mem_cons.mp hu
    rw [insertDots_char hc, ih hrest]

namespace Server

variable {σ : Type} {regexMatch : Bytes → Bytes → Option Bool} {u v : Bytes}

/-! ## A table of one URI -/

private theorem findRequestHandler_one (hu : ∀ c ∈ u, c ≠ '*'.toUInt8)
    (handler : RequestHandler σ) :
    findRequestHandler regexMatch (registerRequestHandler .empty u handler) v =
      findEntry regexMatch (cString v 0) [(u, handler)] := by
  rw [registerRequestHandler, insertDots_eq_self hu]
  rfl

theorem findRequestHandler_one_eq_some_iff (hu : ∀ c ∈ u, c ≠ '*'.toUInt8)
    (handler : RequestHandler σ) :
    findRequestHandler regexMatch (registerRequestHandler .empty u handler) v =
      .ok (some handler) ↔ regexMatch u (cString v 0) = some true := by
  rw [findRequestHandler_one hu, findEntry]
  cases regexMatch u (cString v 0) with
  | none => simp
  | some b => cases b <;> simp [findEntry]

theorem findRequestHandler_one_eq_none_iff (hu : ∀ c ∈ u, c ≠ '*'.toUInt8)
    (handler : RequestHandler σ) :
    findRequestHandler regexMatch (registerRequestHandler .empty u handler) v = .ok none ↔
      regexMatch u (cString v 0) = some false := by
  rw [findRequestHandler_one hu, findEntry]
  cases regexMatch u (cString v 0) with
  | none => simp
  | some b => cases b <;> simp [findEntry]

/-! ## Literal routes -/

/-- Without metacharacters a URI matches itself only. -/
theorem regexMatch_literal (hregex : EcmaRegex.ImplementsGroups regexMatch)
    (hu : ∀ c ∈ u, c ∉ metacharacters) (text : Bytes) :
    regexMatch u text = some (decide (text = u)) := by
  have hplain : ∀ c ∈ u, EcmaRegex.Plain c := fun c hc => .inr (hu c hc)
  have hdot : EcmaRegex.dot ∉ u := fun hmem => hu _ hmem (by decide)
  obtain ⟨r, hr, hmatch⟩ := EcmaRegex.exists_read_plain hplain
  rw [hregex.regex u r hr, Option.some.injEq, Bool.eq_iff_iff,
    RegularExpression.rmatch_iff_matches', hmatch, EcmaRegex.forall_stands_iff hdot,
    decide_eq_true_iff]

/-- `u`, alone in the table, finds its handler, and no other URI does. -/
def FindsOnlyItself (regexMatch : Bytes → Bytes → Option Bool) (u : Bytes)
    (handler : RequestHandler σ) : Prop :=
  findRequestHandler regexMatch (registerRequestHandler .empty u handler) u = .ok (some handler) ∧
  ∀ v, 0 ∉ v → v ≠ u →
    findRequestHandler regexMatch (registerRequestHandler .empty u handler) v = .ok none

/-- A URI that finds itself only has no metacharacters. -/
theorem FindsOnlyItself.no_metacharacters (hregex : EcmaRegex.ImplementsGroups regexMatch)
    (hu : ∀ c ∈ u, c ≠ '*'.toUInt8) (hzero : ∀ c ∈ u, c ≠ 0)
    (hknown : EcmaRegex.read u ≠ .unknown) {handler : RequestHandler σ}
    (h : FindsOnlyItself regexMatch u handler) : ∀ c ∈ u, c ∉ metacharacters := by
  obtain ⟨hfound, hother⟩ := h
  rw [findRequestHandler_one_eq_some_iff hu, cString_eq hzero] at hfound
  cases hread : EcmaRegex.read u with
  | unknown => exact absurd hread hknown
  | malformed =>
    -- `std::regex` throws, so the pattern does not even find itself
    rw [hregex.malformed u hread u] at hfound
    cases hfound
  | regex r =>
    have hmatches : ∀ t, regexMatch u t = some true ↔ t ∈ r.matches' := by
      intro t
      rw [hregex.regex u r hread, Option.some.injEq, RegularExpression.rmatch_iff_matches']
    -- the pattern stands for no other text, which a metacharacter would make it do
    have honly : ∀ t, RegexLengths.Has (· ≠ 0) r t → t = u := by
      intro t ⟨hmem, ht⟩
      by_contra hne
      have hnone := hother t (fun hmem => ht 0 hmem rfl) hne
      rw [findRequestHandler_one_eq_none_iff hu, cString_eq ht, (hmatches t).mpr hmem] at hnone
      cases hnone
    exact EcmaRegex.no_metacharacters_of_only hread hzero
      ⟨'/'.toUInt8, by decide, by decide, by decide⟩ ((hmatches u).mp hfound) honly

/-- A URI without metacharacters finds its handler, and others do not. -/
theorem findRequestHandler_literal (hregex : EcmaRegex.ImplementsGroups regexMatch)
    (hu : ∀ c ∈ u, c ≠ '*'.toUInt8) (hzero : ∀ c ∈ u, c ≠ 0)
    (hmeta : ∀ c ∈ u, c ∉ metacharacters) (handler : RequestHandler σ) :
    findRequestHandler regexMatch (registerRequestHandler .empty u handler) u =
      .ok (some handler) ∧
    ∀ v, findRequestHandler regexMatch (registerRequestHandler .empty u handler) v = .ok none ↔
      cString v 0 ≠ u := by
  constructor
  · rw [findRequestHandler_one_eq_some_iff hu, regexMatch_literal hregex hmeta, cString_eq hzero,
      decide_eq_true rfl]
  · intro v
    rw [findRequestHandler_one_eq_none_iff hu, regexMatch_literal hregex hmeta,
      Option.some.injEq, decide_eq_false_iff_not]

/-- **Literal routing.** A URI without metacharacters finds its handler, and another text finds
    none, unless it is the URI with a NUL behind it: it is taken as a C-string. A URI with
    metacharacters does not find itself, or not only itself, when it is no regular expression
    or one of the part of the grammar that is modelled. -/
theorem literal_routing (hregex : EcmaRegex.ImplementsGroups regexMatch)
    (hu : ∀ c ∈ u, c ≠ '*'.toUInt8 ∧ c ≠ 0) (handler : RequestHandler σ) :
    ((∀ c ∈ u, c ∉ metacharacters) →
      findRequestHandler regexMatch (registerRequestHandler .empty u handler) u =
        .ok (some handler) ∧
      ∀ v, findRequestHandler regexMatch (registerRequestHandler .empty u handler) v = .ok none ↔
        cString v 0 ≠ u) ∧
    (EcmaRegex.read u ≠ .unknown →
      (FindsOnlyItself regexMatch u handler ↔ ∀ c ∈ u, c ∉ metacharacters)) := by
  have hstar : ∀ c ∈ u, c ≠ '*'.toUInt8 := fun c hc => (hu c hc).1
  have hzero : ∀ c ∈ u, c ≠ 0 := fun c hc => (hu c hc).2
  constructor
  · intro hmeta
    exact findRequestHandler_literal hregex hstar hzero hmeta handler
  · intro hknown
    constructor
    · exact fun h => h.no_metacharacters hregex hstar hzero hknown
    · intro hmeta
      obtain ⟨hfound, hother⟩ := findRequestHandler_literal hregex hstar hzero hmeta handler
      refine ⟨hfound, ?_⟩
      intro v hv hne
      -- without a NUL the C-string is the whole of the other URI
      rw [hother, cString_eq fun c hc h0 => hv (h0 ▸ hc)]
      exact hne

/-- A route, and one with a dot. -/
theorem literal_routing_abc :
    let handler : RequestHandler Unit := {}
    let table := registerRequestHandler .empty (ascii "/abc") handler
    findRequestHandler EcmaRegex.matchRead table (ascii "/abc") = .ok (some handler) ∧
      findRequestHandler EcmaRegex.matchRead table (ascii "/abcd") = .ok none ∧
      ¬ FindsOnlyItself EcmaRegex.matchRead (ascii "/a.c") handler := by
  intro handler table
  have habc : ∀ c ∈ ascii "/abc", c ≠ '*'.toUInt8 ∧ c ≠ 0 := by decide +kernel
  have hmeta : ∀ c ∈ ascii "/abc", c ∉ metacharacters := by decide +kernel
  have hdot : ∀ c ∈ ascii "/a.c", c ≠ '*'.toUInt8 ∧ c ≠ 0 := by decide +kernel
  have hknown : EcmaRegex.read (ascii "/a.c") ≠ .unknown := by
    intro h
    cases h
  obtain ⟨hfound, hother⟩ := (literal_routing EcmaRegex.implementsGroups_matchRead habc handler).1
    hmeta
  refine ⟨hfound, (hother _).mpr (by decide +kernel), ?_⟩
  -- the dot of `/a.c` stays a metacharacter, so the pattern finds other URIs too
  rw [(literal_routing EcmaRegex.implementsGroups_matchRead hdot handler).2 hknown]
  decide +kernel

/-- `/a.b` is also found by `/axb`, `/a+b` does not find itself, and `/a(b` is no regular
    expression. -/
theorem not_literal_routing :
    let handler : RequestHandler Unit := {}
    let table := fun uri => registerRequestHandler .empty (ascii uri) handler
    EcmaRegex.ImplementsGroups EcmaRegex.matchRead ∧
      findRequestHandler EcmaRegex.matchRead (table "/a.b") (ascii "/axb") = .ok (some handler) ∧
      findRequestHandler EcmaRegex.matchRead (table "/a+b") (ascii "/a+b") = .ok none ∧
      findRequestHandler EcmaRegex.matchRead (table "/a(b") (ascii "/a(b") =
        .error .regexError := by
  intro handler table
  have hdot : ∀ c ∈ ascii "/a.b", c ≠ '*'.toUInt8 := by decide +kernel
  have hplus : ∀ c ∈ ascii "/a+b", c ≠ '*'.toUInt8 := by decide +kernel
  refine ⟨EcmaRegex.implementsGroups_matchRead, ?_, ?_, rfl⟩
  · rw [findRequestHandler_one_eq_some_iff hdot]
    decide +kernel
  · rw [findRequestHandler_one_eq_none_iff hplus]
    decide +kernel

end Server

end Httpoll.Native
