import Mathlib.Computability.RegularExpressions

/-!
# Glob patterns

A glob pattern is a list in which one element, the star, stands for any list, and every other
element for itself. It is a regular expression in a simple notation, over any alphabet.

## Key results

- `decidableMatches`: whether a text matches is decidable
- `mem_toRegex_iff`: a pattern as a regular expression matches the same texts
-/

namespace Glob

variable {α : Type _} {star : α}

/-- The texts that a pattern stands for. -/
inductive Matches (star : α) : (pattern text : List α) → Prop
  | nil : Matches star [] []
  | any (u : List α) {p t : List α} : Matches star p t → Matches star (star :: p) (u ++ t)
  | char {c : α} {p t : List α} : c ≠ star → Matches star p t → Matches star (c :: p) (c :: t)

theorem matches_nil_iff {t : List α} : Matches star [] t ↔ t = [] := by
  constructor
  · intro h
    cases h
    rfl
  · rintro rfl
    exact .nil

theorem matches_star_iff {p t : List α} :
    Matches star (star :: p) t ↔ ∃ u v, t = u ++ v ∧ Matches star p v := by
  constructor
  · intro h
    cases h with
    | any u h => exact ⟨u, _, rfl, h⟩
    | char hc _ => exact absurd rfl hc
  · rintro ⟨u, v, rfl, h⟩
    exact h.any u

theorem matches_char_iff {c : α} (hc : c ≠ star) {p t : List α} :
    Matches star (c :: p) t ↔ ∃ v, t = c :: v ∧ Matches star p v := by
  constructor
  · intro h
    cases h with
    | any _ _ => exact absurd rfl hc
    | char _ h => exact ⟨_, rfl, h⟩
  · rintro ⟨v, rfl, h⟩
    exact h.char hc

/-! ## Sets of elements as regular expressions -/

open RegularExpression

/-- One of these elements. -/
def oneOf (cs : List α) : RegularExpression α := cs.foldr (fun c r => char c + r) 0

theorem mem_oneOf_iff {cs t : List α} : t ∈ (oneOf cs).matches' ↔ ∃ c, c ∈ cs ∧ t = [c] := by
  induction cs with
  | nil => simp [oneOf, Language.notMem_zero]
  | cons c cs ih =>
    rw [oneOf, List.foldr_cons, matches'_add, Language.mem_add, matches'_char, ← oneOf, ih]
    simp only [List.mem_cons, or_and_right, exists_or, exists_eq_left]
    rfl

/-- The texts of `any.star`: all whose elements are texts of `any`. -/
theorem mem_star_iff {any : RegularExpression α} {P : α → Prop}
    (hany : ∀ t, t ∈ any.matches' ↔ ∃ c, P c ∧ t = [c]) {t : List α} :
    t ∈ any.star.matches' ↔ ∀ c ∈ t, P c := by
  rw [matches'_star, Language.mem_kstar]
  constructor
  · rintro ⟨ts, rfl, hts⟩ c hc
    obtain ⟨s, hs, hcs⟩ := List.mem_flatten.mp hc
    obtain ⟨d, hd, rfl⟩ := (hany s).mp (hts s hs)
    rw [List.mem_singleton.mp hcs]
    exact hd
  · intro ht
    -- the text is cut into its elements
    refine ⟨t.map fun c => [c], ?_, ?_⟩
    · induction t with
      | nil => rfl
      | cons c t ih => exact congrArg (c :: ·) (ih fun d hd => ht d (List.mem_cons_of_mem c hd))
    · intro s hs
      obtain ⟨c, hc, rfl⟩ := List.mem_map.mp hs
      exact (hany [c]).mpr ⟨c, ht c hc, rfl⟩

/-! ## Deciding -/

variable [DecidableEq α]

/-- Match a text against a pattern, trying all that a star can stand for. -/
def matchText (star : α) : (pattern text : List α) → Bool
  | [], t => t.isEmpty
  | c :: p, t =>
    if c = star then t.tails.any (matchText star p)
    else
      match t with
      | [] => false
      | d :: t => c = d && matchText star p t

theorem matchText_iff {p t : List α} : matchText star p t = true ↔ Matches star p t := by
  induction p generalizing t with
  | nil => rw [matchText, List.isEmpty_iff, matches_nil_iff]
  | cons c p ih =>
    unfold matchText
    split
    · rename_i hc
      subst hc
      simp only [List.any_eq_true, List.mem_tails, ih, matches_star_iff]
      constructor
      -- a star stands for what comes before one of the ends of the text
      · rintro ⟨v, ⟨u, hu⟩, h⟩
        exact ⟨u, v, hu.symm, h⟩
      · rintro ⟨u, v, ht, h⟩
        exact ⟨v, ⟨u, ht.symm⟩, h⟩
    · rename_i hc
      rw [matches_char_iff hc]
      cases t with
      | nil => simp
      | cons d t =>
        rw [Bool.and_eq_true, decide_eq_true_iff, ih]
        constructor
        · rintro ⟨rfl, h⟩
          exact ⟨t, rfl, h⟩
        · rintro ⟨v, ht, h⟩
          obtain ⟨rfl, rfl⟩ := List.cons.inj ht
          exact ⟨rfl, h⟩

instance decidableMatches (star : α) (p t : List α) : Decidable (Matches star p t) :=
  decidable_of_iff _ matchText_iff

/-! ## Regular expressions -/

/-- The regular expression for a pattern, where `any` is the one for a single element. -/
def toRegex (star : α) (any : RegularExpression α) : List α → RegularExpression α
  | [] => 1
  | c :: p => (if c = star then any.star else char c) * toRegex star any p

/-- **Globs are regular.** A pattern and its regular expression match the same texts, among
    those whose elements `any` matches. -/
theorem mem_toRegex_iff {any : RegularExpression α} {P : α → Prop}
    (hany : ∀ t, t ∈ any.matches' ↔ ∃ c, P c ∧ t = [c]) {p t : List α} (ht : ∀ c ∈ t, P c) :
    t ∈ (toRegex star any p).matches' ↔ Matches star p t := by
  induction p generalizing t with
  | nil => rw [toRegex, matches'_epsilon, Language.mem_one, matches_nil_iff]
  | cons c p ih =>
    rw [toRegex, matches'_mul, Language.mem_mul]
    split
    · rename_i hc
      subst hc
      rw [matches_star_iff]
      constructor
      · rintro ⟨u, -, v, hv, rfl⟩
        exact ⟨u, v, rfl, (ih fun d hd => ht d (List.mem_append_right u hd)).mp hv⟩
      · rintro ⟨u, v, rfl, hv⟩
        -- what the star stands for is a part of the text
        have hu := (mem_star_iff hany).mpr fun d hd => ht d (List.mem_append_left v hd)
        exact ⟨u, hu, v, (ih fun d hd => ht d (List.mem_append_right u hd)).mpr hv, rfl⟩
    · rename_i hc
      rw [matches_char_iff hc, matches'_char]
      constructor
      · rintro ⟨u, rfl, v, hv, rfl⟩
        exact ⟨v, rfl, (ih fun d hd => ht d (List.mem_cons_of_mem c hd)).mp hv⟩
      · rintro ⟨v, rfl, hv⟩
        exact ⟨[c], rfl, v, (ih fun d hd => ht d (List.mem_cons_of_mem c hd)).mpr hv, rfl⟩

end Glob
