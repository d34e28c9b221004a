import Mathlib.Data.List.Basic
import Mathlib.Data.List.Infix

/-!
# Lines ended by a two-element delimiter

A stream is cut into lines by a delimiter of two elements `a b`, such as CR LF.
`Lines.cut` takes the first line off a list, and `Lines.IsLine` says of a list
that it is exactly one line: it ends in the delimiter and holds no earlier one.

## Key results

- `cut_eq_none_iff`: there is no line to take off iff the delimiter does not occur
- `eq_append_of_cut`: what is taken off and what is left make up the list
- `IsLine.cut_append`: a line is taken off whole, whatever follows it
- `isLine_iff`: a line ends in the delimiter and holds no earlier one
- `IsSplit.unique`: a list is cut into lines and a rest in one way only
- `block_append`: lines up to an empty one read back, whatever follows that
-/

namespace Lines

variable {α : Type _} [DecidableEq α] {a b : α}

/-- Cut a list after the first `a` that is immediately followed by `b`. -/
def cut (a b : α) : List α → Option (List α × List α)
  | x :: y :: rest =>
    if x = a ∧ y = b then some ([x, y], rest)
    else (cut a b (y :: rest)).map fun p => (x :: p.1, p.2)
  | _ => none

/-- `l` is one line: it ends in the delimiter and holds no earlier one. -/
def IsLine (a b : α) (l : List α) : Prop := cut a b l = some (l, [])

instance (a b : α) (l : List α) : Decidable (IsLine a b l) :=
  inferInstanceAs (Decidable (cut a b l = some (l, [])))

@[simp] theorem cut_nil : cut a b [] = none := rfl

@[simp] theorem cut_singleton (x : α) : cut a b [x] = none := rfl

/-- The delimiter at the front is cut off at once. -/
theorem cut_delim (rest : List α) : cut a b (a :: b :: rest) = some ([a, b], rest) := by
  simp [cut]

/-- Past an element that does not begin a delimiter the cut is that of the tail. -/
theorem cut_cons_cons {x y : α} {rest : List α} (h : ¬ (x = a ∧ y = b)) :
    cut a b (x :: y :: rest) = (cut a b (y :: rest)).map fun p => (x :: p.1, p.2) := by
  simp only [cut, if_neg h]

/-! ## What a cut gives -/

/-- Induction on what comes before the delimiter. -/
theorem cut_induction {r : List α} {motive : (xs l : List α) → cut a b xs = some (l, r) → Prop}
    (delim : motive (a :: b :: r) [a, b] (cut_delim r))
    (cons : ∀ x y rest l (hne : ¬ (x = a ∧ y = b)) (hcut : cut a b (y :: rest) = some (l, r)),
      motive (y :: rest) l hcut →
        motive (x :: y :: rest) (x :: l) (by rw [cut_cons_cons hne, hcut]; rfl))
    {xs l : List α} (h : cut a b xs = some (l, r)) : motive xs l h := by
  induction xs using cut.induct a b generalizing l with
  | case1 x y rest hxy =>
    obtain ⟨rfl, rfl⟩ := hxy
    have hcut := h
    rw [cut_delim, Option.some.injEq, Prod.mk.injEq] at hcut
    obtain ⟨rfl, rfl⟩ := hcut
    exact delim
  | case2 x y rest hxy ih =>
    have hcut := h
    rw [cut_cons_cons hxy, Option.map_eq_some_iff] at hcut
    obtain ⟨⟨l', r'⟩, hcut, heq⟩ := hcut
    simp only [Prod.mk.injEq] at heq
    obtain ⟨rfl, rfl⟩ := heq
    exact cons x y rest l' hxy hcut (ih hcut)
  | case3 xs hxs =>
    -- a list this short has no delimiter
    unfold cut at h
    split at h
    · exact absurd rfl (hxs _ _ _)
    · exact absurd h (by simp)

/-- The line and the rest make up the list. -/
theorem eq_append_of_cut {xs l r : List α} (h : cut a b xs = some (l, r)) : xs = l ++ r := by
  induction h using cut_induction with
  | delim => rfl
  | cons x y rest l hne hcut ih => rw [ih, List.cons_append]

/-- More input after a delimiter leaves the line taken off unchanged. -/
theorem cut_append {xs l r : List α} (ys : List α) (h : cut a b xs = some (l, r)) :
    cut a b (xs ++ ys) = some (l, r ++ ys) := by
  induction h using cut_induction with
  | delim => exact cut_delim (r ++ ys)
  | cons x y rest l hne hcut ih =>
    rw [List.cons_append, List.cons_append, cut_cons_cons hne, ← List.cons_append, ih]
    rfl

/-- What is taken off is a line. -/
theorem isLine_of_cut {xs l r : List α} (h : cut a b xs = some (l, r)) : IsLine a b l := by
  induction h using cut_induction with
  | delim => exact cut_delim []
  | cons x y rest l hne hcut ih =>
    have hhead := eq_append_of_cut hcut
    -- the line taken off the tail begins with the tail's first element
    cases l with
    | nil => simp [IsLine] at ih
    | cons z l =>
      obtain rfl : y = z := (List.cons.inj hhead).1
      unfold IsLine at ih ⊢
      rw [cut_cons_cons hne, ih]
      rfl

/-- There is a line to take off exactly when the delimiter occurs. -/
theorem cut_eq_none_iff {xs : List α} : cut a b xs = none ↔ ¬ [a, b] <:+: xs := by
  induction xs using cut.induct a b with
  | case1 x y rest hxy =>
    obtain ⟨rfl, rfl⟩ := hxy
    simp only [cut_delim, reduceCtorEq, false_iff, not_not]
    exact ⟨[], rest, rfl⟩
  | case2 x y rest hxy ih =>
    -- an occurrence begins here, which `hxy` excludes, or further on
    rw [cut_cons_cons hxy, Option.map_eq_none_iff, ih, List.infix_cons_iff (a := x),
      List.cons_prefix_cons, List.cons_prefix_cons]
    simp only [List.nil_prefix, and_true, not_or]
    exact ⟨fun h => ⟨fun hp => hxy ⟨hp.1.symm, hp.2.symm⟩, h⟩, fun h => h.2⟩
  | case3 xs hxs =>
    match xs with
    | [] => simp
    | [x] => simp [List.infix_cons_iff]
    | x :: y :: rest => exact absurd rfl (hxs x y rest)

/-! ## Lines -/

namespace IsLine

variable {l : List α}

/-- Text without the first element of the delimiter, and the delimiter. -/
theorem of_not_mem {t : List α} (h : a ∉ t) : IsLine a b (t ++ [a, b]) := by
  induction t with
  | nil => exact cut_delim []
  | cons x t ih =>
    have hx : x ≠ a := fun hx => h (hx ▸ List.mem_cons_self)
    have ht := ih fun ht => h (List.mem_cons_of_mem x ht)
    unfold IsLine at ht ⊢
    -- the tail has at least the delimiter
    cases hrest : t ++ [a, b] with
    | nil => simp at hrest
    | cons y rest =>
      rw [hrest] at ht
      rw [List.cons_append, hrest, cut_cons_cons fun hxy => hx hxy.1, ht]
      rfl

/-- A line is taken off whole, whatever follows it. -/
theorem cut_append (hl : IsLine a b l) (r : List α) : cut a b (l ++ r) = some (l, r) := by
  have h := Lines.cut_append r hl
  rwa [List.nil_append] at h

theorem ne_nil (hl : IsLine a b l) : l ≠ [] := by
  rintro rfl
  simp [IsLine] at hl

/-- A line ends in the delimiter. -/
theorem eq_append_delim (hl : IsLine a b l) : ∃ t, l = t ++ [a, b] := by
  induction l using cut.induct a b with
  | case1 x y rest hxy =>
    simp only [IsLine, cut, if_pos hxy, Option.some.injEq, Prod.mk.injEq] at hl
    obtain ⟨rfl, rfl⟩ := hxy
    exact ⟨[], hl.1.symm⟩
  | case2 x y rest hxy ih =>
    unfold IsLine at hl
    rw [cut_cons_cons hxy, Option.map_eq_some_iff] at hl
    obtain ⟨⟨l', r'⟩, hcut, heq⟩ := hl
    simp only [Prod.mk.injEq, List.cons.injEq, true_and] at heq
    obtain ⟨rfl, rfl⟩ := heq
    obtain ⟨t, ht⟩ := ih hcut
    exact ⟨x :: t, by rw [ht, List.cons_append]⟩
  | case3 xs hxs =>
    unfold IsLine cut at hl
    split at hl
    · exact absurd rfl (hxs _ _ _)
    · exact absurd hl (by simp)

end IsLine

/-- A line ends in the delimiter and holds no earlier one: none begins before its last two
    elements. -/
theorem isLine_iff {l : List α} :
    IsLine a b l ↔ (∃ t, l = t ++ [a, b]) ∧ ¬ [a, b] <:+: l.dropLast := by
  constructor
  · intro hl
    refine ⟨hl.eq_append_delim, ?_⟩
    intro hearlier
    -- an earlier delimiter would end the line before its last element
    cases hcut : cut a b l.dropLast with
    | none => exact cut_eq_none_iff.mp hcut hearlier
    | some p =>
      have hlonger := cut_append [l.getLast hl.ne_nil] hcut
      rw [List.dropLast_append_getLast hl.ne_nil] at hlonger
      have heq := Option.some.inj (hl.symm.trans hlonger)
      exact absurd (congrArg Prod.snd heq).symm (by simp)
  · intro ⟨⟨t, ht⟩, hearlier⟩
    cases hcut : cut a b l with
    | none =>
      have hnot := cut_eq_none_iff.mp hcut
      exact absurd ⟨t, [], by rw [ht, List.append_nil]⟩ hnot
    | some p =>
      obtain ⟨l₁, r⟩ := p
      have happend := eq_append_of_cut hcut
      have hline := isLine_of_cut hcut
      obtain ⟨t₁, ht₁⟩ := hline.eq_append_delim
      cases r with
      | nil =>
        rw [List.append_nil] at happend
        rw [IsLine, hcut, happend]
      | cons x r =>
        -- the delimiter that ends the first line is an earlier one
        have hdrop : l.dropLast = l₁ ++ (x :: r).dropLast := by
          rw [happend, List.dropLast_append_of_ne_nil (by simp)]
        exact absurd ⟨t₁, (x :: r).dropLast, by rw [hdrop, ht₁]⟩ hearlier

/-! ## Splits -/

/-- The list `xs`, cut into lines and a rest without the delimiter. -/
structure IsSplit (a b : α) (xs : List α) (lines : List (List α)) (rest : List α) : Prop where
  isLine : ∀ l ∈ lines, IsLine a b l
  no_delim : ¬ [a, b] <:+: rest
  append_eq : lines.flatten ++ rest = xs

namespace IsSplit

variable {xs l r rest rest' : List α} {lines lines' : List (List α)}

theorem nil (h : cut a b xs = none) : IsSplit a b xs [] xs :=
  { isLine := by simp
    no_delim := cut_eq_none_iff.mp h
    append_eq := rfl }

theorem cons (h : cut a b xs = some (l, r)) (hr : IsSplit a b r lines rest) :
    IsSplit a b xs (l :: lines) rest :=
  { isLine := by
      intro l' hl'
      cases hl' with
      | head => exact isLine_of_cut h
      | tail _ hmem => exact hr.isLine l' hmem
    no_delim := hr.no_delim
    append_eq := by
      rw [List.flatten_cons, List.append_assoc, hr.append_eq]
      exact (eq_append_of_cut h).symm }

/-- The first line of a split is the one that is cut off. -/
theorem cut_eq_some (h : IsSplit a b xs (l :: lines) rest) :
    cut a b xs = some (l, lines.flatten ++ rest) := by
  have hline := h.isLine l List.mem_cons_self
  rw [← h.append_eq, List.flatten_cons, List.append_assoc]
  exact hline.cut_append _

/-- A split without lines. -/
theorem cut_eq_none (h : IsSplit a b xs [] rest) : cut a b xs = none := by
  have hrest := h.no_delim
  have happend := h.append_eq
  rw [List.flatten_nil, List.nil_append] at happend
  rw [happend] at hrest
  exact cut_eq_none_iff.mpr hrest

/-- The split behind the first line. -/
theorem tail (h : IsSplit a b xs (l :: lines) rest) :
    IsSplit a b (lines.flatten ++ rest) lines rest :=
  { isLine := fun l' hl' => h.isLine l' (List.mem_cons_of_mem l hl')
    no_delim := h.no_delim
    append_eq := rfl }

/-- **A list is split in one way only.** -/
theorem unique (h : IsSplit a b xs lines rest) (h' : IsSplit a b xs lines' rest') :
    lines = lines' ∧ rest = rest' := by
  induction lines generalizing xs lines' with
  | nil =>
    cases lines' with
    | nil => exact ⟨rfl, h.append_eq.trans h'.append_eq.symm⟩
    | cons l' lines' => exact absurd (h.cut_eq_none.symm.trans h'.cut_eq_some) (by simp)
  | cons l lines ih =>
    cases lines' with
    | nil => exact absurd (h'.cut_eq_none.symm.trans h.cut_eq_some) (by simp)
    | cons l' lines' =>
      -- both begin with the line that is cut off
      have hcut := Option.some.inj (h.cut_eq_some.symm.trans h'.cut_eq_some)
      have hline : l = l' := congrArg Prod.fst hcut
      have hbehind : lines.flatten ++ rest = lines'.flatten ++ rest' := congrArg Prod.snd hcut
      obtain ⟨hlines, hrest⟩ := ih h.tail (hbehind ▸ h'.tail)
      exact ⟨by rw [hline, hlines], hrest⟩

end IsSplit

/-! ## Blocks of lines -/

/-- The lines up to the first empty one and what comes after that, each line without its
    delimiter. `line` has been read of the first one. -/
def blockFrom (a b : α) : (line : List α) → List α → Option (List (List α) × List α)
  | line, x :: y :: rest =>
    if x = a ∧ y = b then
      if line = [] then some ([], rest)
      else (blockFrom a b [] rest).map fun p => (line :: p.1, p.2)
    else blockFrom a b (line ++ [x]) (y :: rest)
  | _, _ => none

/-- The lines up to the first empty one, and what comes after that. -/
def block (a b : α) (xs : List α) : Option (List (List α) × List α) := blockFrom a b [] xs

/-- The rest of a line is read up to its delimiter. -/
theorem blockFrom_append {t : List α} (h : a ∉ t) (line rest : List α) :
    blockFrom a b line (t ++ a :: b :: rest) =
      if line ++ t = [] then some ([], rest)
      else (blockFrom a b [] rest).map fun p => ((line ++ t) :: p.1, p.2) := by
  induction t generalizing line with
  | nil => simp only [List.nil_append, blockFrom, and_self, if_true, List.append_nil]
  | cons x t ih =>
    have hx : x ≠ a := fun hx => h (hx ▸ List.mem_cons_self)
    have ht := ih (fun ht => h (List.mem_cons_of_mem x ht)) (line ++ [x])
    rw [List.append_assoc, List.singleton_append] at ht
    -- the tail has at least the delimiter
    cases hrest : t ++ a :: b :: rest with
    | nil => simp at hrest
    | cons y rest' =>
      rw [hrest] at ht
      rw [List.cons_append, hrest, blockFrom, if_neg fun hxy => hx hxy.1, ht]

/-- **A block of lines reads back**, and what follows it is left alone. -/
theorem block_append {ts : List (List α)} (h : ∀ t ∈ ts, t ≠ [] ∧ a ∉ t) (rest : List α) :
    block a b (ts.flatMap (· ++ [a, b]) ++ a :: b :: rest) = some (ts, rest) := by
  unfold block
  induction ts with
  | nil => exact blockFrom_append List.not_mem_nil [] rest
  | cons t ts ih =>
    obtain ⟨hne, hmem⟩ := h t List.mem_cons_self
    rw [List.flatMap_cons, List.append_assoc, List.append_assoc, List.cons_append,
      List.singleton_append, blockFrom_append hmem, List.nil_append, if_neg hne,
      ih fun t ht => h t (List.mem_cons_of_mem _ ht)]
    rfl

end Lines
