import Mathlib.Data.Nat.Basic
import Mathlib.Logic.Relation

/-!
# Loops that may not terminate

A loop of an imperative program is given by its body: from a state the body
either asks for another iteration, leaves the loop with a result, or itself
never returns. `Loop.run` executes the body with a bound on the number of
iterations, so it is a computable function; `Loop.Returns` drops the bound.

## Key results

- `run_mono`: more fuel never changes a result
- `run_of_measure_or_stuck`: how much fuel is enough for a loop whose
  iterations either decrease a measure or repeat their state
- `terminates_of_measure` / `not_terminates_of_closed`: the rules for
  termination and for divergence
- `Returns.invariant` / `Returns.simulation`: the rules for one loop and for two
- `Returns.inside`: the rule for a loop whose iterations are part of those of another loop
-/

namespace Loop

/-- What one iteration of a loop asks for. -/
inductive Step (σ ρ : Type _) where
  /-- Go round again from this state. -/
  | next (s : σ)
  /-- Leave the loop with this result. -/
  | done (r : ρ)
  deriving Repr, DecidableEq

variable {σ ρ : Type _}

/-- Run a loop for at most `fuel` iterations. `none` means that the fuel ran out,
    or that the body itself did not return. -/
def run (body : σ → Option (Step σ ρ)) : Nat → σ → Option ρ
  | 0, _ => none
  | fuel + 1, s =>
    match body s with
    | none => none
    | some (.next s') => run body fuel s'
    | some (.done r) => some r

/-- The loop started in `s` leaves with result `r`. -/
def Returns (body : σ → Option (Step σ ρ)) (s : σ) (r : ρ) : Prop :=
  ∃ fuel, run body fuel s = some r

/-- The loop started in `s` ends. -/
def Terminates (body : σ → Option (Step σ ρ)) (s : σ) : Prop :=
  ∃ r, Returns body s r

variable {body : σ → Option (Step σ ρ)}

/-! ## Unfolding one iteration -/

theorem run_succ_next {s s' : σ} (h : body s = some (.next s')) (fuel : Nat) :
    run body (fuel + 1) s = run body fuel s' := by
  simp only [run, h]

theorem run_succ_done {s : σ} {r : ρ} (h : body s = some (.done r)) (fuel : Nat) :
    run body (fuel + 1) s = some r := by
  simp only [run, h]

/-! ## Fuel independence -/

/-- A result is not changed by one more unit of fuel. -/
private theorem run_succ_of_run {fuel : Nat} {s : σ} {r : ρ}
    (h : run body fuel s = some r) : run body (fuel + 1) s = some r := by
  induction fuel generalizing s with
  | zero => simp [run] at h
  | succ fuel ih =>
    unfold run at h ⊢
    cases hb : body s with
    | none => simp [hb] at h
    | some step =>
      cases step with
      | next s' => simp only [hb] at h ⊢; exact ih h
      | done r' => simp only [hb] at h ⊢; exact h

/-- A result is not changed by more fuel. -/
theorem run_mono {fuel fuel' : Nat} {s : σ} {r : ρ} (hle : fuel ≤ fuel')
    (h : run body fuel s = some r) : run body fuel' s = some r := by
  induction hle with
  | refl => exact h
  | step _ ih => exact run_succ_of_run ih

/-! ## Rules -/

theorem Returns.of_done {s : σ} {r : ρ} (h : body s = some (.done r)) : Returns body s r :=
  ⟨1, run_succ_done h 0⟩

theorem Returns.of_next {s s' : σ} {r : ρ} (h : body s = some (.next s'))
    (hr : Returns body s' r) : Returns body s r := by
  obtain ⟨n, hn⟩ := hr
  exact ⟨n + 1, by rw [run_succ_next h, hn]⟩

/-- An iteration that goes round again leaves the result of the loop to the rest of it. -/
theorem returns_iff_of_next {s s' : σ} {r : ρ} (h : body s = some (.next s')) :
    Returns body s r ↔ Returns body s' r := by
  refine ⟨?_, .of_next h⟩
  rintro ⟨n, hn⟩
  cases n with
  | zero => simp [run] at hn
  | succ n => exact ⟨n, by rw [← hn, run_succ_next h]⟩

theorem terminates_iff_of_next {s s' : σ} (h : body s = some (.next s')) :
    Terminates body s ↔ Terminates body s' :=
  exists_congr fun _ => returns_iff_of_next h

/-- A loop leaves with one result at most. -/
theorem Returns.unique {s : σ} {r r' : ρ} (h : Returns body s r) (h' : Returns body s r') :
    r = r' := by
  obtain ⟨n, hn⟩ := h
  obtain ⟨n', hn'⟩ := h'
  have hmax := run_mono (Nat.le_max_left n n') hn
  exact Option.some.inj (hmax.symm.trans (run_mono (Nat.le_max_right n n') hn'))

/-- Induction on the iterations of a loop that leaves with `r`. -/
theorem Returns.induction {r : ρ} {motive : (s : σ) → Returns body s r → Prop}
    (done : ∀ s (hb : body s = some (.done r)), motive s (.of_done hb))
    (next : ∀ s s' (hb : body s = some (.next s')) (hr : Returns body s' r),
      motive s' hr → motive s (.of_next hb hr))
    {s : σ} (h : Returns body s r) : motive s h := by
  -- by induction on fuel that is enough
  obtain ⟨n, hn⟩ := h
  induction n generalizing s with
  | zero => simp [run] at hn
  | succ n ih =>
    cases hb : body s with
    | none => simp [run, hb] at hn
    | some step =>
      cases step with
      | next s' =>
        rw [run_succ_next hb] at hn
        exact next s s' hb ⟨n, hn⟩ (ih hn)
      | done r' =>
        rw [run_succ_done hb] at hn
        obtain rfl := Option.some.inj hn
        exact done s hb

/-- The invariant rule: what every iteration preserves, and what leaving the loop
    gives under it, holds of the result. -/
theorem Returns.invariant {I : σ → Prop} {Q : ρ → Prop}
    (hnext : ∀ s s', I s → body s = some (.next s') → I s')
    (hdone : ∀ s r, I s → body s = some (.done r) → Q r)
    {s : σ} {r : ρ} (hs : I s) (h : Returns body s r) : Q r := by
  induction h using Returns.induction with
  | done s hb => exact hdone s r hs hb
  | next s s' hb _ ih => exact ih (hnext s s' hs hb)

/-- The simulation rule: when another loop matches every iteration, from related states to
    related states, it leaves with the same result. -/
theorem Returns.simulation {τ : Type _} {body' : τ → Option (Step τ ρ)} {R : σ → τ → Prop}
    (hnext : ∀ s s' t, R s t → body s = some (.next s') →
      ∃ t', body' t = some (.next t') ∧ R s' t')
    (hdone : ∀ s r t, R s t → body s = some (.done r) → body' t = some (.done r))
    {s : σ} {t : τ} {r : ρ} (hst : R s t) (h : Returns body s r) : Returns body' t r := by
  induction h using Returns.induction generalizing t with
  | done s hb => exact .of_done (hdone s r t hst hb)
  | next s s' hb _ ih =>
    obtain ⟨t', ht, hst'⟩ := hnext s s' t hst hb
    exact .of_next ht (ih hst')

/-- The loop started in `s` comes to `s'` on its way. -/
def Reaches (body : σ → Option (Step σ ρ)) : σ → σ → Prop :=
  Relation.ReflTransGen fun s s' => body s = some (.next s')

theorem Reaches.head {s s' s'' : σ} (h : body s = some (.next s')) (hr : Reaches body s' s'') :
    Reaches body s s'' :=
  Relation.ReflTransGen.head h hr

theorem Returns.of_reaches {s s' : σ} {r : ρ} (h : Reaches body s s') (hr : Returns body s' r) :
    Returns body s r := by
  induction h using Relation.ReflTransGen.head_induction_on with
  | refl => exact hr
  | head hb _ ih => exact .of_next hb ih

/-- The rule for a loop inside of another one: when the outer loop comes, from related states, to
    related states for every iteration of the inner one, it comes to where that one is left. -/
theorem Returns.inside {τ ρ' : Type _} {body' : τ → Option (Step τ ρ')} {R : σ → τ → Prop}
    {Q : ρ → τ → Prop}
    (hnext : ∀ s s' t, R s t → body s = some (.next s') → ∃ t', Reaches body' t t' ∧ R s' t')
    (hdone : ∀ s r t, R s t → body s = some (.done r) → ∃ t', Reaches body' t t' ∧ Q r t')
    {s : σ} {t : τ} {r : ρ} (hst : R s t) (h : Returns body s r) :
    ∃ t', Reaches body' t t' ∧ Q r t' := by
  induction h using Returns.induction generalizing t with
  | done s hb => exact hdone s r t hst hb
  | next s s' hb _ ih =>
    obtain ⟨t₁, hreaches, hst'⟩ := hnext s s' t hst hb
    obtain ⟨t', hreaches', hQ⟩ := ih hst'
    exact ⟨t', hreaches.trans hreaches', hQ⟩

/-- A loop whose iterations return and decrease a measure terminates. -/
theorem terminates_of_measure (m : σ → Nat) {I : σ → Prop}
    (hbody : ∀ s, I s → ∃ step, body s = some step ∧
      ∀ s', step = .next s' → I s' ∧ m s' < m s)
    {s : σ} (hs : I s) : Terminates body s := by
  generalize hk : m s = k
  induction k using Nat.strongRecOn generalizing s with
  | ind k ih =>
    obtain ⟨step, hb, hstep⟩ := hbody s hs
    cases step with
    | next s' =>
      obtain ⟨hs', hlt⟩ := hstep s' rfl
      exact (terminates_iff_of_next hb).mpr (ih (m s') (hk ▸ hlt) hs' rfl)
    | done r => exact ⟨r, .of_done hb⟩

/-- A loop that can always go round again within a set of states does not terminate. -/
theorem not_terminates_of_closed {I : σ → Prop}
    (hbody : ∀ s, I s → ∃ s', body s = some (.next s') ∧ I s')
    {s : σ} (hs : I s) : ¬ Terminates body s := by
  rintro ⟨r, h⟩
  induction h using Returns.induction with
  | done s hb =>
    obtain ⟨s', hb', -⟩ := hbody s hs
    cases hb.symm.trans hb'
  | next s s' hb _ ih =>
    obtain ⟨t, hb', ht⟩ := hbody s hs
    cases hb.symm.trans hb'
    exact ih ht

/-- When every iteration either decreases a measure or repeats its state, a loop that
    returns does so within `m s + 1` iterations: a repeated state is repeated for ever. -/
theorem run_of_measure_or_stuck (m : σ → Nat)
    (hbody : ∀ s s', body s = some (.next s') → m s' < m s ∨ s' = s)
    {s : σ} {r : ρ} (h : Returns body s r) : run body (m s + 1) s = some r := by
  induction h using Returns.induction with
  | done s hb => exact run_succ_done hb (m s)
  | next s s' hb _ ih =>
    rcases hbody s s' hb with hlt | rfl
    · rw [run_succ_next hb]
      exact run_mono hlt ih
    · exact ih

end Loop
