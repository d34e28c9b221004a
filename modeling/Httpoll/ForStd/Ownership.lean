import Mathlib.Data.List.Perm.Basic
import Httpoll.ForStd.Runs

/-!
# Resources that are acquired and given back

Descriptors, blocks of memory: an environment hands resources out, and takes them back. It
keeps those that are in use. To give back what is not in use is a fault, and so is to use it.
What is in use is held by one owner, whose steps are the ones of interest, or by others, who
acquire and give back resources of their own at any time.

## Key results

- `Balanced.releaseAll`: an owner can give back what it holds, and leaves the rest alone
- `perm_of_getElem?`, `perm_set`: what the owner holds, when its parts hold it
- `run`: when each step of the owner accounts for the resources, no run comes to a fault, and
  what is in use is always what the owner and the others hold
-/

namespace Ownership

variable {R S L : Type _} [DecidableEq R]

/-- Give a resource back; there is no result when it is not in use. -/
def release (inUse : List R) (r : R) : Option (List R) :=
  if r ∈ inUse then some (inUse.erase r) else none

/-- Give several back, one after the other. -/
def releaseAll (inUse rs : List R) : Option (List R) := rs.foldlM release inUse

/-- Use several; there is no result when one of them is not in use. -/
def useAll (inUse rs : List R) : Option (List R) :=
  if ∀ r ∈ rs, r ∈ inUse then some inUse else none

theorem useAll_eq_some {inUse inUse' rs : List R} :
    useAll inUse rs = some inUse' ↔ (∀ r ∈ rs, r ∈ inUse) ∧ inUse = inUse' := by
  rw [useAll, Option.ite_none_right_eq_some, Option.some.injEq]

/-- What the environment can hand out: different resources, none of them in use. -/
def Fresh (inUse rs : List R) : Prop := rs.Nodup ∧ ∀ r ∈ rs, r ∉ inUse

instance (inUse rs : List R) : Decidable (Fresh inUse rs) :=
  inferInstanceAs (Decidable (_ ∧ _))

/-- What is in use is what the owner holds and what the others hold, each resource once. -/
structure Balanced (inUse owned others : List R) : Prop where
  perm : inUse.Perm (owned ++ others)
  nodup : inUse.Nodup

namespace Balanced

variable {inUse owned others rs rest : List R}

omit [DecidableEq R] in
theorem mem (h : Balanced inUse owned others) {r : R} (hr : r ∈ owned) : r ∈ inUse :=
  h.perm.mem_iff.mpr (List.mem_append_left others hr)

omit [DecidableEq R] in
theorem comm (h : Balanced inUse owned others) : Balanced inUse others owned :=
  ⟨h.perm.trans List.perm_append_comm, h.nodup⟩

omit [DecidableEq R] in
theorem congr (h : Balanced inUse owned others) {owned' : List R} (hperm : owned.Perm owned') :
    Balanced inUse owned' others :=
  ⟨h.perm.trans (hperm.append_right others), h.nodup⟩

omit [DecidableEq R] in
theorem acquire (h : Balanced inUse owned others) (hfresh : Fresh inUse rs) :
    Balanced (rs ++ inUse) (rs ++ owned) others := by
  constructor
  · rw [List.append_assoc]
    exact h.perm.append_left rs
  · apply List.nodup_append.mpr
    refine ⟨hfresh.1, h.nodup, ?_⟩
    intro r hr r' hr' heq
    subst heq
    exact hfresh.2 r hr hr'

theorem release (h : Balanced inUse owned others) {r : R} (hr : r ∈ owned) :
    ∃ inUse', release inUse r = some inUse' ∧ Balanced inUse' (owned.erase r) others := by
  refine ⟨inUse.erase r, if_pos (h.mem hr), ?_, h.nodup.erase r⟩
  have herase := h.perm.erase r
  rw [List.erase_append_left others hr] at herase
  exact herase

/-- **Giving back.** An owner can give back what it holds, and keeps the rest. -/
theorem releaseAll (h : Balanced inUse owned others) (hperm : owned.Perm (rs ++ rest)) :
    ∃ inUse', releaseAll inUse rs = some inUse' ∧ Balanced inUse' rest others := by
  unfold Ownership.releaseAll
  induction rs generalizing inUse owned with
  | nil => exact ⟨inUse, rfl, h.congr hperm⟩
  | cons r rs ih =>
    have hr : r ∈ owned := hperm.mem_iff.mpr List.mem_cons_self
    obtain ⟨inUse₁, hrelease, h₁⟩ := h.release hr
    have hrest : (owned.erase r).Perm (rs ++ rest) := by
      have herase := hperm.erase r
      rw [List.cons_append, List.erase_cons_head] at herase
      exact herase
    obtain ⟨inUse', hall, h'⟩ := ih h₁ hrest
    exact ⟨inUse', Runs.foldlM_cons_eq_some.mpr ⟨inUse₁, hrelease, hall⟩, h'⟩

end Balanced

/-! ## Parts of the owner -/

section Parts

variable {P : Type _} (held : P → List R)

omit [DecidableEq R] in
/-- What one part holds, and what the rest holds. -/
theorem perm_of_getElem? {parts : List P} {i : Nat} {p : P} (h : parts[i]? = some p) :
    (parts.flatMap held).Perm (held p ++ (parts.eraseIdx i).flatMap held) := by
  obtain ⟨hi, rfl⟩ := List.getElem?_eq_some_iff.mp h
  exact (List.getElem_cons_eraseIdx_perm hi).symm.flatMap_right held

omit [DecidableEq R] in
/-- Another part in its place. -/
theorem perm_set {parts : List P} {i : Nat} (hi : i < parts.length) (p : P) :
    ((parts.set i p).flatMap held).Perm (held p ++ (parts.eraseIdx i).flatMap held) :=
  (List.set_perm_cons_eraseIdx hi p).flatMap_right held

end Parts

/-! ## Runs -/

/-- A step of the owner, or one of the others. -/
inductive Label (L R : Type _) where
  | own (l : L)
  | acquire (rs : List R)
  | release (r : R)

/-- The owner, what is in use, and what the others hold. -/
structure World (S R : Type _) where
  state : S
  inUse : List R
  others : List R

/-- One step; there is no next state after a fault. `own` gives the next state of the owner and
    what is in use then. -/
def step (own : S → List R → L → Option (S × List R)) (w : World S R) :
    Label L R → Option (World S R)
  | .own l => (own w.state w.inUse l).map fun s => { w with state := s.1, inUse := s.2 }
  | .acquire rs => some { w with inUse := rs ++ w.inUse, others := rs ++ w.others }
  | .release r =>
    (release w.inUse r).map fun inUse => { w with inUse, others := w.others.erase r }

/-- The environment can do its part in a step, and the others give back what is theirs. -/
def Possible (possible : S → List R → L → Prop) (w : World S R) : Label L R → Prop
  | .own l => possible w.state w.inUse l
  | .acquire rs => Fresh w.inUse rs
  | .release r => r ∈ w.others

instance (possible : S → List R → L → Prop) [∀ s inUse l, Decidable (possible s inUse l)]
    (w : World S R) (label : Label L R) : Decidable (Possible possible w label) := by
  cases label <;> unfold Possible <;> infer_instance

/-- **The rule for runs.** When each step of the owner that is possible comes to no fault, keeps
    an invariant of the owner, and leaves it with what is in use and not held by the others,
    then no run comes to a fault, and this is so at its end. -/
theorem run {own : S → List R → L → Option (S × List R)} {owned : S → List R} {I : S → Prop}
    {possible : S → List R → L → Prop}
    (hstep : ∀ s inUse others l, I s → Balanced inUse (owned s) others → possible s inUse l →
      ∃ s', own s inUse l = some s' ∧ I s'.1 ∧ Balanced s'.2 (owned s'.1) others)
    {w : World S R} {labels : List (Label L R)} (hI : I w.state)
    (h : Balanced w.inUse (owned w.state) w.others)
    (hpossible : Runs.Along (step own) (Possible possible) w labels) :
    ∃ w', labels.foldlM (step own) w = some w' ∧ I w'.state ∧
      Balanced w'.inUse (owned w'.state) w'.others := by
  refine Runs.progress
    (I := fun w => I w.state ∧ Balanced w.inUse (owned w.state) w.others) ?_ ⟨hI, h⟩ hpossible
  intro w l ⟨hI, h⟩ hl
  cases l with
  | own l =>
    obtain ⟨s', hown, h'⟩ := hstep w.state w.inUse w.others l hI h hl
    exact ⟨_, congrArg (Option.map _) hown, h'⟩
  -- what the others do is nothing to the owner
  | acquire rs => exact ⟨_, rfl, hI, (h.comm.acquire hl).comm⟩
  | release r =>
    obtain ⟨inUse', hrelease, h'⟩ := h.comm.release hl
    exact ⟨_, congrArg (Option.map _) hrelease, hI, h'.comm⟩

/-- What a step is to the owner. -/
def Label.ownSteps : Label L R → List L
  | .own l => [l]
  | .acquire _ => []
  | .release _ => []

/-- The simulation rule for the owner: its steps are those of another system, for the labels
    that `label` makes of them, whatever the others do in between. -/
theorem simulation {T M : Type _} (label : L → M) (step' : T → M → Option T)
    {own : S → List R → L → Option (S × List R)} {possible : S → List R → L → Prop}
    {Q : S → T → Prop}
    (hstep : ∀ s inUse l t s', Q s t → possible s inUse l → own s inUse l = some s' →
      ∃ t', step' t (label l) = some t' ∧ Q s'.1 t')
    {w w' : World S R} {t : T} {labels : List (Label L R)} (hQ : Q w.state t)
    (hpossible : Runs.Along (step own) (Possible possible) w labels)
    (hrun : labels.foldlM (step own) w = some w') :
    ∃ t', ((labels.flatMap Label.ownSteps).map label).foldlM step' t = some t' ∧
      Q w'.state t' := by
  -- a step of the others is no step of the other system
  have hown : ∀ w t l w', Q w.state t → Possible possible w l → step own w l = some w' →
      ∃ t', (l.ownSteps.map label).foldlM step' t = some t' ∧ Q w'.state t' := by
    intro w t l w' hQ hl hw
    cases l with
    | own l =>
      obtain ⟨s', hs', rfl⟩ := Option.map_eq_some_iff.mp hw
      obtain ⟨t', ht', hQ'⟩ := hstep w.state w.inUse l t s' hQ hl hs'
      exact ⟨t', Runs.foldlM_cons_eq_some.mpr ⟨t', ht', rfl⟩, hQ'⟩
    | acquire rs =>
      cases hw
      exact ⟨t, rfl, hQ⟩
    | release r =>
      obtain ⟨inUse, -, rfl⟩ := Option.map_eq_some_iff.mp hw
      exact ⟨t, rfl, hQ⟩
  obtain ⟨t', ht', hQ'⟩ := Runs.simulation_project (R := fun w t => Q w.state t)
    (fun _ (l : Label L R) => l.ownSteps.map label) hown hQ hpossible hrun
  rw [Runs.project_eq_flatMap _ hrun, ← List.map_flatMap] at ht'
  exact ⟨t', ht', hQ'⟩

end Ownership
