import Mathlib.Data.List.Infix
import Mathlib.Data.List.TakeWhile

/-!
# Separated lists

The text of a list whose elements are separated by one character, such as a comma, with
any amount of padding, such as blanks, on either side of each element.

## Key results

- `Spells.forall_mem`: what holds of the separators and the elements holds of the text
- `Spells.infix_iff`: a word without separators occurs in the text exactly when it occurs
  in one of the elements
- `dropWhile_padded`: the element that a reader finds past the padding
-/

namespace Separated

variable {α β : Type _} {pad sep : α}

/-- An element within padding. -/
def padded (pad : α) (before : Nat) (t : List α) (after : Nat) : List α :=
  List.replicate before pad ++ (t ++ List.replicate after pad)

/-- The text is that of the elements `ts`, in their order, with `sep` between them and any
    amount of `pad` around each. -/
inductive Spells (pad sep : α) : List (List α) → List α → Prop where
  /-- The last element. -/
  | last (t : List α) (before after : Nat) : Spells pad sep [t] (padded pad before t after)
  /-- An element that others follow. -/
  | cons (t : List α) (before after : Nat) {ts : List (List α)} {text : List α}
      (rest : Spells pad sep ts text) :
      Spells pad sep (t :: ts) (padded pad before t after ++ sep :: text)

/-! ## Characters -/

theorem mem_padded {t : List α} {before after : Nat} {c : α}
    (h : c ∈ padded pad before t after) : c = pad ∨ c ∈ t := by
  rcases List.mem_append.mp h with hbefore | h
  · exact .inl (List.eq_of_mem_replicate hbefore)
  rcases List.mem_append.mp h with ht | hafter
  · exact .inr ht
  · exact .inl (List.eq_of_mem_replicate hafter)

theorem map_padded (f : α → β) (t : List α) (before after : Nat) :
    (padded pad before t after).map f = padded (f pad) before (t.map f) after := by
  simp only [padded, List.map_append, List.map_replicate]

/-- What holds of the padding, the separator and the elements holds of all the text. -/
theorem Spells.forall_mem {P : α → Prop} {ts : List (List α)} {text : List α}
    (h : Spells pad sep ts text) (hpad : P pad) (hsep : P sep) (hts : ∀ t ∈ ts, ∀ c ∈ t, P c) :
    ∀ c ∈ text, P c := by
  induction h with
  | last t before after =>
    intro c hc
    rcases mem_padded hc with rfl | ht
    · exact hpad
    · exact hts t List.mem_cons_self c ht
  | cons t before after _ ih =>
    intro c hc
    -- in the element and its padding, or behind it
    rcases List.mem_append.mp hc with hc | hc
    · rcases mem_padded hc with rfl | ht
      · exact hpad
      · exact hts t List.mem_cons_self c ht
    · rcases List.mem_cons.mp hc with rfl | hc
      · exact hsep
      · exact ih (fun t ht => hts t (List.mem_cons_of_mem _ ht)) c hc

/-- The list character by character under a function. -/
theorem Spells.map {ts : List (List α)} {text : List α} (h : Spells pad sep ts text) (f : α → β) :
    Spells (f pad) (f sep) (ts.map (List.map f)) (text.map f) := by
  induction h with
  | last t before after =>
    rw [map_padded]
    exact .last _ before after
  | cons t before after _ ih =>
    rw [List.map_append, map_padded, List.map_cons]
    exact .cons _ before after ih

/-! ## Words -/

/-- A beginning without `c` does not reach over a `c`. -/
theorem prefix_append_cons_iff {w l₁ l₂ : List α} {c : α} (hc : c ∉ w) :
    w <+: l₁ ++ c :: l₂ ↔ w <+: l₁ := by
  refine ⟨fun h => ?_, fun h => h.trans (List.prefix_append _ _)⟩
  rcases List.prefix_or_prefix_of_prefix h (List.prefix_append l₁ (c :: l₂)) with hle | hge
  · exact hle
  · obtain ⟨rest, rfl⟩ := hge
    rw [List.prefix_append_right_inj] at h
    cases rest with
    | nil => rw [List.append_nil]
    | cons x rest =>
      obtain ⟨rfl, -⟩ := List.cons_prefix_cons.mp h
      exact absurd (List.mem_append_right _ List.mem_cons_self) hc

/-- A word without `c` does not reach over a `c`. -/
theorem infix_append_cons_iff {w l₁ l₂ : List α} {c : α} (hc : c ∉ w) :
    w <:+: l₁ ++ c :: l₂ ↔ w <:+: l₁ ∨ w <:+: l₂ := by
  constructor
  · intro h
    rcases List.infix_append_iff_ne_nil.mp h with h | h | ⟨w₁, w₂, -, hne, rfl, -, hpre⟩
    · exact .inl h
    · rcases List.infix_cons_iff.mp h with hpre | h
      · -- a prefix that does not begin with `c` is empty
        cases w with
        | nil => exact .inl List.nil_infix
        | cons x w =>
          obtain ⟨rfl, -⟩ := List.cons_prefix_cons.mp hpre
          exact absurd List.mem_cons_self hc
      · exact .inr h
    · obtain ⟨x, w₂, rfl⟩ := List.exists_cons_of_ne_nil hne
      obtain ⟨rfl, -⟩ := List.cons_prefix_cons.mp hpre
      exact absurd (List.mem_append_right _ List.mem_cons_self) hc
  · rintro (h | h)
    · exact List.infix_append_of_infix_left h
    · exact List.infix_append_of_infix_right (List.infix_cons h)

/-- Padding before a text adds no occurrence of a word without padding. -/
theorem infix_replicate_append_iff {w : List α} (hne : w ≠ []) (hpad : pad ∉ w) (n : Nat)
    (l : List α) : w <:+: List.replicate n pad ++ l ↔ w <:+: l := by
  induction n with
  | zero => rw [List.replicate_zero, List.nil_append]
  | succ n ih =>
    rw [List.replicate_succ, List.cons_append, ← List.nil_append (pad :: _),
      infix_append_cons_iff hpad, List.infix_nil, or_iff_right hne]
    exact ih

/-- A word that is not empty occurs nowhere in a run of another character. -/
private theorem not_infix_replicate {w : List α} (hne : w ≠ []) (hpad : pad ∉ w) (n : Nat) :
    ¬ w <:+: List.replicate n pad := by
  have h := infix_replicate_append_iff hne hpad n []
  rw [List.append_nil, List.infix_nil] at h
  exact fun hw => hne (h.mp hw)

theorem infix_padded_iff {w t : List α} (hne : w ≠ []) (hpad : pad ∉ w) (before after : Nat) :
    w <:+: padded pad before t after ↔ w <:+: t := by
  rw [padded, infix_replicate_append_iff hne hpad]
  cases after with
  | zero => rw [List.replicate_zero, List.append_nil]
  | succ n =>
    rw [List.replicate_succ, infix_append_cons_iff hpad,
      or_iff_left (not_infix_replicate hne hpad n)]

/-- A word without separators occurs in the text exactly when it occurs in an element. -/
theorem Spells.infix_iff {w text : List α} {ts : List (List α)} (h : Spells pad sep ts text)
    (hne : w ≠ []) (hpad : pad ∉ w) (hsep : sep ∉ w) : w <:+: text ↔ ∃ t ∈ ts, w <:+: t := by
  induction h with
  | last t before after => simp [infix_padded_iff hne hpad]
  | cons t before after _ ih =>
    rw [infix_append_cons_iff hsep, infix_padded_iff hne hpad, ih]
    simp

/-! ## Reading a list -/

/-- Past the padding before it an element is at the front. -/
theorem dropWhile_padded [DecidableEq α] {t : List α} (hne : t ≠ []) (hpad : pad ∉ t)
    (before after : Nat) (rest : List α) :
    (padded pad before t after ++ rest).dropWhile (· == pad) =
      t ++ (List.replicate after pad ++ rest) := by
  obtain ⟨x, t, rfl⟩ := List.exists_cons_of_ne_nil hne
  have hx : (x == pad) = false := by
    simp only [beq_eq_false_iff_ne]
    rintro rfl
    exact hpad List.mem_cons_self
  rw [padded, List.append_assoc, List.dropWhile_append_of_pos (by simp), List.append_assoc,
    List.cons_append, List.dropWhile_cons_of_neg (by simp [hx])]

end Separated
