import Mathlib.Data.List.Basic

/-!
# Runs of a system

A system takes a step for a label. The label holds all that the environment decides, so the
step is a function, and a partial one: there is no next state when the environment cannot
offer the label, or when the system does not survive it. A run folds the step over a list
of labels.

## Key results

- `invariant`: what every step keeps holds at the end of a run
- `progress`: a run comes to its end when no step gets stuck in a state of the invariant
- `forall_prefix_iff`: what holds in every state of a run, by what its steps meet
- `simulation`: a simulation of the steps is one of the runs
- `project_invariant`: what every step keeps of the states and of what is collected in them
- `simulation_project`: a simulation in which a step is matched by any number of steps
-/

namespace Runs

variable {S T L M : Type _}

/-- Every step of the run from `s` meets `P`. -/
def Along (step : S → L → Option S) (P : S → L → Prop) : S → List L → Prop
  | _, [] => True
  | s, l :: ls => P s l ∧ ∀ s' ∈ step s l, Along step P s' ls

variable {step : S → L → Option S} {P : S → L → Prop}

instance decidableAlong [∀ s l, Decidable (P s l)] :
    (s : S) → (ls : List L) → Decidable (Along step P s ls)
  | _, [] => isTrue trivial
  | s, l :: ls =>
    have : ∀ s', Decidable (Along step P s' ls) := fun s' => decidableAlong s' ls
    inferInstanceAs (Decidable (P s l ∧ ∀ s' ∈ step s l, Along step P s' ls))

/-- The first step of a run that is not empty, and the rest of it. -/
theorem foldlM_cons_eq_some {s s' : S} {l : L} {ls : List L} :
    (l :: ls).foldlM step s = some s' ↔ ∃ t, step s l = some t ∧ ls.foldlM step t = some s' := by
  rw [List.foldlM_cons]
  exact Option.bind_eq_some_iff

/-- The first part of a run, and the rest of it. -/
theorem foldlM_append_eq_some {s s' : S} {ls ls' : List L} :
    (ls ++ ls').foldlM step s = some s' ↔
      ∃ t, ls.foldlM step s = some t ∧ ls'.foldlM step t = some s' := by
  rw [List.foldlM_append]
  exact Option.bind_eq_some_iff

/-- The rest of a run whose first part is known. -/
theorem foldlM_append_of_some {s s' : S} {ls ls' : List L} (h : ls.foldlM step s = some s') :
    (ls ++ ls').foldlM step s = ls'.foldlM step s' := by
  rw [List.foldlM_append, h]
  rfl

/-- The invariant rule. -/
theorem invariant {I : S → Prop} (hstep : ∀ s l s', I s → P s l → step s l = some s' → I s')
    {s s' : S} {ls : List L} (hs : I s) (hP : Along step P s ls)
    (h : ls.foldlM step s = some s') : I s' := by
  induction ls generalizing s with
  | nil => cases h; exact hs
  | cons l ls ih =>
    obtain ⟨t, ht, hrest⟩ := foldlM_cons_eq_some.mp h
    exact ih (hstep s l t hs hP.1 ht) (hP.2 t ht) hrest

/-- The progress rule. -/
theorem progress {I : S → Prop}
    (hstep : ∀ s l, I s → P s l → ∃ s', step s l = some s' ∧ I s') {s : S} {ls : List L}
    (hs : I s) (hP : Along step P s ls) : ∃ s', ls.foldlM step s = some s' ∧ I s' := by
  induction ls generalizing s with
  | nil => exact ⟨s, rfl, hs⟩
  | cons l ls ih =>
    obtain ⟨t, ht, hI⟩ := hstep s l hs hP.1
    obtain ⟨s', hs', hI'⟩ := ih hI (hP.2 t ht)
    exact ⟨s', foldlM_cons_eq_some.mpr ⟨t, ht, hs'⟩, hI'⟩

/-- A condition that the labels meet in all states of an invariant. -/
theorem along_of_invariant {I : S → Prop} {ls : List L}
    (hstep : ∀ s, ∀ l ∈ ls, ∀ s', I s → step s l = some s' → I s')
    (hP : ∀ s, ∀ l ∈ ls, I s → P s l) {s : S} (hs : I s) : Along step P s ls := by
  induction ls generalizing s with
  | nil => trivial
  | cons l ls ih =>
    refine ⟨hP s l List.mem_cons_self hs, ?_⟩
    intro s' hs'
    apply ih
    · exact fun s l hl => hstep s l (List.mem_cons_of_mem _ hl)
    · exact fun s l hl => hP s l (List.mem_cons_of_mem _ hl)
    · exact hstep s l List.mem_cons_self s' hs hs'

/-- A condition that the labels meet in every state. -/
theorem along_of_forall {ls : List L} (h : ∀ l ∈ ls, ∀ s, P s l) (s : S) : Along step P s ls :=
  along_of_invariant (I := fun _ => True) (fun _ _ _ _ _ _ => trivial)
    (fun s l hl _ => h l hl s) trivial

/-- Two conditions that the steps meet. -/
theorem Along.and {P' : S → L → Prop} {s : S} {ls : List L} (h : Along step P s ls)
    (h' : Along step P' s ls) : Along step (fun s l => P s l ∧ P' s l) s ls := by
  induction ls generalizing s with
  | nil => trivial
  | cons l ls ih => exact ⟨⟨h.1, h'.1⟩, fun s' hs' => ih (h.2 s' hs') (h'.2 s' hs')⟩

/-- A condition that follows from one that the steps meet, in the states of an invariant. -/
theorem Along.of_invariant {P' : S → L → Prop} {I : S → Prop}
    (hstep : ∀ s l s', I s → P s l → step s l = some s' → I s')
    (hP : ∀ s l, I s → P s l → P' s l) {s : S} {ls : List L} (hs : I s)
    (h : Along step P s ls) : Along step P' s ls := by
  induction ls generalizing s with
  | nil => trivial
  | cons l ls ih =>
    refine ⟨hP s l hs h.1, ?_⟩
    intro s' hs'
    exact ih (hstep s l s' hs h.1 hs') (h.2 s' hs')

/-- A condition that follows from one that the steps meet. -/
theorem Along.imp {P' : S → L → Prop} (hP : ∀ s l, P s l → P' s l) {s : S} {ls : List L}
    (h : Along step P s ls) : Along step P' s ls :=
  h.of_invariant (I := fun _ => True) (fun _ _ _ _ _ _ => trivial) (fun s l _ => hP s l) trivial

/-- A property of the states of an invariant, which a step that does not meet `P` destroys,
    holds of every state that a run comes through exactly when all of its steps meet `P`. -/
theorem forall_prefix_iff {I Q : S → Prop} (hgood : ∀ s, I s → Q s)
    (hstep : ∀ s l s', I s → P s l → step s l = some s' → I s')
    (hbad : ∀ s l, I s → ¬ P s l → ∃ s', step s l = some s' ∧ ¬ Q s') {s : S} {ls : List L}
    (hs : I s) :
    (∀ pre, pre <+: ls → ∀ s', pre.foldlM step s = some s' → Q s') ↔ Along step P s ls := by
  induction ls generalizing s with
  | nil =>
    refine ⟨fun _ => trivial, ?_⟩
    rintro - pre hpre s' h
    rw [List.prefix_nil.mp hpre] at h
    cases h
    exact hgood s hs
  | cons l ls ih =>
    constructor
    · intro h
      have hP : P s l := by
        -- a step that does not meet `P` ends a prefix where `Q` fails
        by_contra hP
        obtain ⟨s', hs', hQ⟩ := hbad s l hs hP
        exact hQ (h [l] (List.prefix_append [l] ls) s' (foldlM_cons_eq_some.mpr ⟨s', hs', rfl⟩))
      refine ⟨hP, ?_⟩
      intro t ht
      refine (ih (hstep s l t hs hP ht)).mp ?_
      intro pre hpre s' hs'
      exact h (l :: pre) ((List.prefix_cons_inj l).mpr hpre) s'
        (foldlM_cons_eq_some.mpr ⟨t, ht, hs'⟩)
    · rintro ⟨hP, hrest⟩ pre hpre s' h
      rcases List.prefix_cons_iff.mp hpre with rfl | ⟨pre', rfl, hpre'⟩
      · cases h
        exact hgood s hs
      · obtain ⟨t, ht, hrun⟩ := foldlM_cons_eq_some.mp h
        exact (ih (hstep s l t hs hP ht)).mpr (hrest t ht) pre' hpre' s' hrun

/-- The simulation rule: a step of the one system is a step of the other, for the label that
    `label` makes of it, from and to related states. -/
theorem simulation (label : L → M) {step' : T → M → Option T} {R : S → T → Prop}
    (hstep : ∀ s t l s', R s t → P s l → step s l = some s' →
      ∃ t', step' t (label l) = some t' ∧ R s' t')
    {s s' : S} {t : T} {ls : List L} (hR : R s t) (hP : Along step P s ls)
    (h : ls.foldlM step s = some s') :
    ∃ t', (ls.map label).foldlM step' t = some t' ∧ R s' t' := by
  induction ls generalizing s t with
  | nil => cases h; exact ⟨t, rfl, hR⟩
  | cons l ls ih =>
    obtain ⟨u, hu, hrest⟩ := foldlM_cons_eq_some.mp h
    obtain ⟨v, hv, hR'⟩ := hstep s t l u hR hP.1 hu
    obtain ⟨t', ht', hR''⟩ := ih hR' (hP.2 u hu) hrest
    exact ⟨t', foldlM_cons_eq_some.mpr ⟨v, hv, ht'⟩, hR''⟩

/-- The part of a run that another system has in it: for each step, the labels that `own` makes
    of it. -/
def project (step : S → L → Option S) (own : S → L → List M) : S → List L → List M
  | _, [] => []
  | s, l :: ls =>
    own s l ++
      match step s l with
      | some s' => project step own s' ls
      | none => []

/-- The invariant rule, for the states of a run and what is collected along it. -/
theorem project_invariant (own : S → L → List M) {I : S → List M → Prop}
    (hstep : ∀ s ms l s', I s ms → P s l → step s l = some s' → I s' (ms ++ own s l))
    {s s' : S} (ms : List M) {ls : List L} (hs : I s ms) (hP : Along step P s ls)
    (h : ls.foldlM step s = some s') : I s' (ms ++ project step own s ls) := by
  induction ls generalizing s ms with
  | nil =>
    cases h
    rw [project, List.append_nil]
    exact hs
  | cons l ls ih =>
    obtain ⟨u, hu, hrest⟩ := foldlM_cons_eq_some.mp h
    -- what was collected so far, and what the step adds
    have hnext := ih _ (hstep s ms l u hs hP.1 hu) (hP.2 u hu) hrest
    rw [List.append_assoc] at hnext
    rw [project, hu]
    exact hnext

/-- The simulation rule, for steps that are matched by any number of steps. -/
theorem simulation_project (own : S → L → List M) {step' : T → M → Option T} {R : S → T → Prop}
    (hstep : ∀ s t l s', R s t → P s l → step s l = some s' →
      ∃ t', (own s l).foldlM step' t = some t' ∧ R s' t')
    {s s' : S} {t : T} {ls : List L} (hR : R s t) (hP : Along step P s ls)
    (h : ls.foldlM step s = some s') :
    ∃ t', (project step own s ls).foldlM step' t = some t' ∧ R s' t' := by
  -- what is collected is a run of the other system
  refine project_invariant own (I := fun s ms => ∃ t', ms.foldlM step' t = some t' ∧ R s t') ?_
    [] ⟨t, rfl, hR⟩ hP h
  rintro s ms l s' ⟨u, hu, hR⟩ hPl hs'
  obtain ⟨t', ht', hR'⟩ := hstep s u l s' hR hPl hs'
  exact ⟨t', foldlM_append_eq_some.mpr ⟨u, hu, ht'⟩, hR'⟩

/-- Labels that depend on no state. -/
theorem project_eq_flatMap (own : L → List M) {s s' : S} {ls : List L}
    (h : ls.foldlM step s = some s') : project step (fun _ => own) s ls = ls.flatMap own := by
  induction ls generalizing s with
  | nil => rfl
  | cons l ls ih =>
    obtain ⟨t, ht, hrest⟩ := foldlM_cons_eq_some.mp h
    rw [project, ht, List.flatMap_cons]
    dsimp only
    rw [ih hrest]

end Runs
