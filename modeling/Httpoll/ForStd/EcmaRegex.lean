import Httpoll.ForStd.Glob

/-!
# Regular expressions of ECMAScript

The part of the ECMAScript grammar without groups, classes, alternatives, assertions, counts
and escapes: a sequence of characters and dots, each of which may have a star. A dot stands for
every character that is not a line terminator.

## Key results

- `mem_anyChar_iff`: the texts that a dot stands for
-/

namespace EcmaRegex

/-- The characters with a meaning of their own in a regular expression. -/
def metacharacters : List UInt8 := "^$\\.*+?()[]\x7b\x7d|".toList.map Char.toUInt8

def dot : UInt8 := '.'.toUInt8

def star : UInt8 := '*'.toUInt8

/-- The line terminators among the bytes. -/
def IsLineTerminator (c : UInt8) : Prop := c = 10 ∨ c = 13

instance : DecidablePred IsLineTerminator := fun _ => inferInstanceAs (Decidable (_ ∨ _))

/-- What a dot stands for. -/
def anyChar : RegularExpression UInt8 :=
  Glob.oneOf (((List.range 256).map UInt8.ofNat).filter fun c => ¬ IsLineTerminator c)

/-- An atom of one character; `none` for the other metacharacters. -/
def atom (c : UInt8) : Option (RegularExpression UInt8) :=
  if c = dot then some anyChar
  else if c ∈ metacharacters then none
  else some (.char c)

/-- A regular expression of this part of the grammar. -/
def parse : (pattern : List UInt8) → Option (RegularExpression UInt8)
  | [] => some 1
  | [c] => do
    let r ← atom c
    return r * 1
  | c :: d :: rest =>
    if d = star then do
      let r ← atom c
      let s ← parse rest
      return r.star * s
    else do
      let r ← atom c
      let s ← parse (d :: rest)
      return r * s

/-- A matcher that implements this part: it matches a text as a whole. -/
def Implements (regexMatch : (pattern text : List UInt8) → Option Bool) : Prop :=
  ∀ pattern r, parse pattern = some r → ∀ text, regexMatch pattern text = some (r.rmatch text)

/-- Matching by derivatives is such a matcher. -/
theorem implements_rmatch : Implements fun pattern text => (parse pattern).map (·.rmatch text) := by
  intro pattern r hr text
  exact congrArg (Option.map (·.rmatch text)) hr

theorem mem_anyChar_iff {t : List UInt8} :
    t ∈ anyChar.matches' ↔ ∃ c, ¬ IsLineTerminator c ∧ t = [c] := by
  have hall : ∀ c : UInt8, c ∈ (List.range 256).map UInt8.ofNat := by
    intro c
    exact List.mem_map.mpr ⟨c.toNat, List.mem_range.mpr c.toNat_lt, UInt8.ofNat_toNat⟩
  rw [anyChar, Glob.mem_oneOf_iff]
  simp only [List.mem_filter, hall, true_and, decide_eq_true_eq]

/-- A character with a star. -/
theorem parse_star {c : UInt8} {r s : RegularExpression UInt8} {rest : List UInt8}
    (hc : atom c = some r) (hrest : parse rest = some s) :
    parse (c :: star :: rest) = some (r.star * s) := by
  simp only [parse, if_true, hc, hrest, Option.bind_eq_bind, Option.bind_some, Option.pure_def]

/-- A character without a star. -/
theorem parse_char {c : UInt8} {r s : RegularExpression UInt8} {rest : List UInt8}
    (hc : atom c = some r) (hstar : rest.head? ≠ some star) (hrest : parse rest = some s) :
    parse (c :: rest) = some (r * s) := by
  cases rest with
  | nil =>
    obtain rfl := Option.some.inj hrest
    simp only [parse, hc, Option.bind_eq_bind, Option.bind_some, Option.pure_def]
  | cons d rest =>
    have hd : d ≠ star := fun hd => hstar (congrArg some hd)
    simp only [parse, if_neg hd, hc, hrest, Option.bind_eq_bind, Option.bind_some,
      Option.pure_def]

end EcmaRegex
