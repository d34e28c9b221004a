import Mathlib.Computability.RegularExpressions

/-!
# How long the texts of a regular expression are

A regular expression without a star matches texts up to some length; with a star around
something that is not empty there is no bound. Both are said here of the texts all of whose
elements have a property.

## Key results

- `Sized.mul`, `Sized.add`, `Sized.star`: the bounds of the operations
- `Sized.length_le_of_only`: a text is not longer than the bound when nothing else is matched
-/

namespace RegexLengths

open RegularExpression

variable {α : Type _} {P : α → Prop} {r s : RegularExpression α} {n m : Nat} {t u : List α}

/-- A text with the property that is matched. -/
def Has (P : α → Prop) (r : RegularExpression α) (t : List α) : Prop :=
  t ∈ r.matches' ∧ ∀ c ∈ t, P c

/-- There is such a text, and all of them have at most `n` elements, or they are as long as one
    likes. -/
structure Sized (P : α → Prop) (r : RegularExpression α) (n : Nat) : Prop where
  exists_text : ∃ t, Has P r t
  bounded_or : (∀ t, Has P r t → t.length ≤ n) ∨ ∀ k, ∃ t, Has P r t ∧ k ≤ t.length

/-! ## Texts of the operations -/

theorem has_one_iff : Has P 1 t ↔ t = [] := by
  constructor
  · intro h
    have hmem := h.1
    rw [matches'_epsilon, Language.mem_one] at hmem
    exact hmem
  · intro ht
    subst ht
    exact ⟨by rw [matches'_epsilon, Language.mem_one], by simp⟩

theorem has_mul_iff : Has P (r * s) t ↔ ∃ u v, t = u ++ v ∧ Has P r u ∧ Has P s v := by
  constructor
  · intro ⟨hmem, hP⟩
    rw [matches'_mul, Language.mem_mul] at hmem
    obtain ⟨u, hu, v, hv, rfl⟩ := hmem
    obtain ⟨hPu, hPv⟩ := List.forall_mem_append.mp hP
    exact ⟨u, v, rfl, ⟨hu, hPu⟩, ⟨hv, hPv⟩⟩
  · intro ⟨u, v, ht, ⟨hu, hPu⟩, ⟨hv, hPv⟩⟩
    subst ht
    rw [Has, matches'_mul, Language.mem_mul]
    exact ⟨⟨u, hu, v, hv, rfl⟩, List.forall_mem_append.mpr ⟨hPu, hPv⟩⟩

theorem has_add_iff : Has P (r + s) t ↔ Has P r t ∨ Has P s t := by
  rw [Has, matches'_add, Language.mem_add, or_and_right]
  rfl

/-- Texts of a star, repeated. -/
theorem has_star_replicate (k : Nat) (h : Has P r t) :
    Has P r.star (List.replicate k t).flatten := by
  constructor
  · rw [matches'_star, Language.mem_kstar]
    refine ⟨List.replicate k t, rfl, ?_⟩
    intro v hv
    rw [(List.mem_replicate.mp hv).2]
    exact h.1
  · intro c hc
    obtain ⟨v, hv, hcv⟩ := List.mem_flatten.mp hc
    rw [(List.mem_replicate.mp hv).2] at hcv
    exact h.2 c hcv

/-- A text of a star is made of texts. -/
theorem exists_of_has_star (h : Has P r.star t) :
    ∃ ts : List (List α), t = ts.flatten ∧ ∀ v ∈ ts, Has P r v := by
  obtain ⟨hmem, hP⟩ := h
  rw [matches'_star, Language.mem_kstar] at hmem
  obtain ⟨ts, rfl, hts⟩ := hmem
  exact ⟨ts, rfl, fun v hv => ⟨hts v hv, fun c hc => hP c (List.mem_flatten.mpr ⟨v, hv, hc⟩)⟩⟩

/-! ## Bounds -/

namespace Sized

theorem mono (h : Sized P r n) (hle : n ≤ m) : Sized P r m :=
  { exists_text := h.exists_text
    bounded_or := h.bounded_or.imp_left fun hbound t ht => Nat.le_trans (hbound t ht) hle }

theorem one : Sized P (1 : RegularExpression α) 0 :=
  { exists_text := ⟨[], has_one_iff.mpr rfl⟩
    bounded_or := .inl fun t ht => by rw [has_one_iff.mp ht, List.length_nil] }

/-- What matches single elements only, and one with the property. -/
theorem of_single (hsingle : ∀ t ∈ r.matches', t.length = 1) (h : ∃ t, Has P r t) :
    Sized P r 1 :=
  { exists_text := h
    bounded_or := .inl fun t ht => Nat.le_of_eq (hsingle t ht.1) }

theorem mul (hr : Sized P r n) (hs : Sized P s m) : Sized P (r * s) (n + m) := by
  obtain ⟨⟨u, hu⟩, hru⟩ := hr
  obtain ⟨⟨v, hv⟩, hsv⟩ := hs
  refine ⟨⟨u ++ v, has_mul_iff.mpr ⟨u, v, rfl, hu, hv⟩⟩, ?_⟩
  cases hru with
  | inr hlong =>
    right
    intro k
    -- a long text of the one and any text of the other
    obtain ⟨u', hu', hk⟩ := hlong k
    refine ⟨u' ++ v, has_mul_iff.mpr ⟨u', v, rfl, hu', hv⟩, ?_⟩
    rw [List.length_append]
    omega
  | inl hbound =>
    cases hsv with
    | inr hlong =>
      right
      intro k
      obtain ⟨v', hv', hk⟩ := hlong k
      refine ⟨u ++ v', has_mul_iff.mpr ⟨u, v', rfl, hu, hv'⟩, ?_⟩
      rw [List.length_append]
      omega
    | inl hbound' =>
      left
      intro t ht
      obtain ⟨u', v', rfl, hu', hv'⟩ := has_mul_iff.mp ht
      have hlen := hbound u' hu'
      have hlen' := hbound' v' hv'
      rw [List.length_append]
      omega

theorem add (hr : Sized P r n) (hs : Sized P s m) : Sized P (r + s) (n + m) := by
  obtain ⟨⟨u, hu⟩, hru⟩ := hr
  refine ⟨⟨u, has_add_iff.mpr (.inl hu)⟩, ?_⟩
  cases hru with
  | inr hlong =>
    right
    intro k
    -- a long text of either is one of the sum
    obtain ⟨u', hu', hk⟩ := hlong k
    exact ⟨u', has_add_iff.mpr (.inl hu'), hk⟩
  | inl hbound =>
    cases hs.bounded_or with
    | inr hlong =>
      right
      intro k
      obtain ⟨v', hv', hk⟩ := hlong k
      exact ⟨v', has_add_iff.mpr (.inr hv'), hk⟩
    | inl hbound' =>
      left
      intro t ht
      cases has_add_iff.mp ht with
      | inl hu' => exact Nat.le_trans (hbound t hu') (Nat.le_add_right n m)
      | inr hv' => exact Nat.le_trans (hbound' t hv') (Nat.le_add_left m n)

/-- A star matches the empty text only, or it can be repeated without end. -/
theorem star (r : RegularExpression α) : Sized P r.star 0 := by
  refine ⟨⟨[], ?_, by simp⟩, ?_⟩
  · rw [matches'_star]
    exact Language.nil_mem_kstar _
  by_cases hempty : ∀ t, Has P r t → t = []
  · left
    intro t ht
    obtain ⟨ts, rfl, hts⟩ := exists_of_has_star ht
    have hnil : ts.flatten = [] :=
      List.flatten_eq_nil_iff.mpr fun v hv => hempty v (hts v hv)
    rw [hnil, List.length_nil]
  · right
    intro k
    rw [not_forall] at hempty
    obtain ⟨t, ht⟩ := hempty
    rw [Classical.not_imp] at ht
    obtain ⟨hhas, hne⟩ := ht
    -- a text that is not empty, as often as it takes
    have hpos := List.length_pos_iff.mpr hne
    refine ⟨_, has_star_replicate k hhas, ?_⟩
    rw [List.length_flatten, List.map_replicate, List.sum_replicate_nat]
    exact Nat.le_mul_of_pos_right k hpos

/-- When a text is the only one, it is within the bound. -/
theorem length_le_of_only (h : Sized P r n) (ht : Has P r t) (honly : ∀ u, Has P r u → u = t) :
    t.length ≤ n := by
  cases h.bounded_or with
  | inl hbound => exact hbound t ht
  | inr hlong =>
    obtain ⟨u, hu, hk⟩ := hlong (t.length + 1)
    rw [honly u hu] at hk
    omega

end Sized

end RegexLengths
