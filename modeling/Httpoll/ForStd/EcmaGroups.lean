import Httpoll.ForStd.EcmaRegex
import Httpoll.ForStd.RegexLengths

/-!
# Regular expressions of ECMAScript with groups

A larger part of the ECMAScript grammar: characters, dots, classes that list their members,
groups, alternatives, and the quantifiers star, plus and question mark, lazy or not. Escapes,
assertions, counts, ranges and the groups that begin with a question mark are beyond it. The
reader tells them apart from what is no regular expression at all.

## Key results

- `Advance.fits`: one character of a pattern, and how long what it matches can be
- `read_sized`: the same for a whole pattern
- `exists_read_plain`: what a pattern of characters and dots matches
- `no_metacharacters_of_only`: a pattern that matches itself and nothing else has no
  metacharacters
- `ImplementsGroups.implements`: the part without groups is contained in this one
-/

namespace EcmaRegex

open RegexLengths

/-- What can be said of a pattern. -/
inductive Reading where
  | regex (r : RegularExpression UInt8)
  /-- It is no regular expression. -/
  | malformed
  /-- It is beyond this part of the grammar. -/
  | unknown

/-- What the current alternative ends with. -/
inductive Last where
  | nothing
  /-- A quantifier can follow. -/
  | atom (r : RegularExpression UInt8)
  /-- The quantifier can be made lazy. -/
  | quantified
  | lazy

/-- A disjunction of which a part has been read. -/
structure Level where
  before : Option (RegularExpression UInt8) := none
  sequence : RegularExpression UInt8 := 1
  last : Last := .nothing

namespace Level

/-- The current alternative. -/
def alternative (l : Level) : RegularExpression UInt8 :=
  match l.last with
  | .atom r => l.sequence * r
  | _ => l.sequence

/-- All alternatives. -/
def disjunction (l : Level) : RegularExpression UInt8 :=
  match l.before with
  | some r => r + l.alternative
  | none => l.alternative

/-- One more atom. -/
def push (l : Level) (r : RegularExpression UInt8) : Level :=
  { l with sequence := l.alternative, last := .atom r }

/-- The atom `r`, which is the last one, with a quantifier. -/
def quantify (l : Level) (r : RegularExpression UInt8) : Level :=
  { l with sequence := l.sequence * r, last := .quantified }

/-- The next alternative. -/
def next (l : Level) : Level := { before := some l.disjunction }

end Level

/-- What a quantifier makes of an atom. -/
def quantifier (c : UInt8) : Option (RegularExpression UInt8 → RegularExpression UInt8) :=
  if c = star then some fun r => r.star
  else if c = '+'.toUInt8 then some fun r => r * r.star
  else if c = '?'.toUInt8 then some fun r => 1 + r
  else none

/-- The characters with a meaning of their own in a class, but the one that ends it. -/
def classSpecials : List UInt8 := "[\\^-".toList.map Char.toUInt8

/-- Read the rest of a pattern: `members` are those of the class that is open, `outer` the
    groups around the current one. -/
def readFrom : (rest : List UInt8) → (members : Option (List UInt8)) → (top : Level) →
    (outer : List Level) → Reading
  | [], none, top, [] => .regex top.disjunction
  | [], _, _, _ => .malformed
  | c :: rest, some members, top, outer =>
    if c = ']'.toUInt8 then
      if members = [] then .unknown
      else readFrom rest none (top.push (Glob.oneOf members)) outer
    else if c ∈ classSpecials then .unknown
    else readFrom rest (some (members ++ [c])) top outer
  | c :: rest, none, top, outer =>
    if c = '('.toUInt8 then
      if rest.head? = some '?'.toUInt8 then .unknown else readFrom rest none {} (top :: outer)
    else if c = ')'.toUInt8 then
      match outer with
      | [] => .malformed
      | l :: outer => readFrom rest none (l.push top.disjunction) outer
    else if c = '|'.toUInt8 then readFrom rest none top.next outer
    else if c = '['.toUInt8 then readFrom rest (some []) top outer
    else
      match quantifier c, top.last with
      | some q, .atom r => readFrom rest none (top.quantify (q r)) outer
      | some _, .nothing => .malformed
      | some _, .quantified =>
        if c = '?'.toUInt8 then readFrom rest none { top with last := .lazy } outer else .unknown
      | some _, .lazy => .unknown
      | none, _ =>
        match atom c with
        | some r => readFrom rest none (top.push r) outer
        | none => .unknown

/-- What a pattern is. -/
def read (pattern : List UInt8) : Reading := readFrom pattern none {} []

/-- A matcher that implements this part: it matches a text as a whole, and refuses what is no
    regular expression. -/
structure ImplementsGroups (regexMatch : (pattern text : List UInt8) → Option Bool) : Prop where
  regex : ∀ pattern r, read pattern = .regex r → ∀ text,
    regexMatch pattern text = some (r.rmatch text)
  malformed : ∀ pattern, read pattern = .malformed → ∀ text, regexMatch pattern text = none

/-- Matching by derivatives, for this part. -/
def matchRead (pattern text : List UInt8) : Option Bool :=
  match read pattern with
  | .regex r => some (r.rmatch text)
  | .malformed | .unknown => none

theorem implementsGroups_matchRead : ImplementsGroups matchRead :=
  { regex := fun pattern r hr text => by rw [matchRead, hr]
    malformed := fun pattern h text => by rw [matchRead, h] }

/-! ## Lengths -/

variable {P : UInt8 → Prop}

/-- A dot, or a character that stands for itself. -/
def Plain (c : UInt8) : Prop := c = dot ∨ c ∉ metacharacters

instance : DecidablePred Plain := fun _ => inferInstanceAs (Decidable (_ ∨ _))

/-- The characters of a pattern that are counted: plain ones, and the end of a class. -/
def weighs (c : UInt8) : Bool := Plain c ∨ c = ']'.toUInt8

/-- The parts of a level match texts of at most `k` characters in all, unless there is no bound
    for them. -/
def Level.Fits (P : UInt8 → Prop) (l : Level) (k : Nat) : Prop :=
  ∃ i j m, i + j + m ≤ k ∧ (∀ r, l.before = some r → Sized P r i) ∧ Sized P l.sequence j ∧
    ∀ r, l.last = .atom r → Sized P r m

/-- The same for the levels around. -/
def StackFits (P : UInt8 → Prop) : List Level → Nat → Prop
  | [], _ => True
  | l :: outer, k => ∃ i j, i + j ≤ k ∧ l.Fits P i ∧ StackFits P outer j

namespace Level.Fits

variable {l : Level} {k n : Nat} {r : RegularExpression UInt8}

private theorem alternative {j m : Nat} (hsequence : Sized P l.sequence j)
    (hlast : ∀ r, l.last = .atom r → Sized P r m) : Sized P l.alternative (j + m) := by
  unfold Level.alternative
  cases hl : l.last with
  | atom r => exact hsequence.mul (hlast r hl)
  | nothing | quantified | lazy => exact hsequence.mono (Nat.le_add_right j m)

theorem empty : Level.Fits P {} 0 :=
  ⟨0, 0, 0, Nat.le_refl 0, by simp, .one, by simp⟩

theorem disjunction (h : l.Fits P k) : Sized P l.disjunction k := by
  obtain ⟨i, j, m, hk, hbefore, hsequence, hlast⟩ := h
  have hall := alternative hsequence hlast
  unfold Level.disjunction
  cases hb : l.before with
  | none => exact hall.mono (by omega)
  | some r => exact ((hbefore r hb).add hall).mono (by omega)

theorem push (h : l.Fits P k) (hr : Sized P r n) : (l.push r).Fits P (k + n) := by
  obtain ⟨i, j, m, hk, hbefore, hsequence, hlast⟩ := h
  refine ⟨i, j + m, n, by omega, hbefore, alternative hsequence hlast, ?_⟩
  intro r' hr'
  cases hr'
  exact hr

/-- A quantifier does not raise the bound of its atom. -/
theorem quantify {c : UInt8} {q : RegularExpression UInt8 → RegularExpression UInt8}
    (h : l.Fits P k) (hr : l.last = .atom r) (hq : quantifier c = some q) :
    (l.quantify (q r)).Fits P k := by
  obtain ⟨i, j, m, hk, hbefore, hsequence, hlast⟩ := h
  have hatom := hlast r hr
  have hsized : Sized P (q r) m := by
    -- a star needs no bound, and the others are no longer than the atom or without end
    unfold quantifier at hq
    split at hq
    · cases hq
      exact (Sized.star r).mono (Nat.zero_le m)
    split at hq
    · cases hq
      exact hatom.mul (Sized.star r)
    split at hq
    · cases hq
      exact (Sized.one.add hatom).mono (by omega)
    · cases hq
  refine ⟨i, j + m, 0, by omega, hbefore, hsequence.mul hsized, ?_⟩
  intro r' hr'
  cases hr'

theorem lazy (h : l.Fits P k) : Level.Fits P { l with last := .lazy } k := by
  obtain ⟨i, j, m, hk, hbefore, hsequence, -⟩ := h
  refine ⟨i, j, m, hk, hbefore, hsequence, ?_⟩
  intro r' hr'
  cases hr'

theorem next (h : l.Fits P k) : l.next.Fits P k := by
  refine ⟨k, 0, 0, Nat.le_refl k, ?_, .one, ?_⟩
  · intro r hr
    cases hr
    exact h.disjunction
  · intro r hr
    cases hr

end Level.Fits

/-- A class matches one of its members. -/
private theorem sized_oneOf {members : List UInt8} (hne : members ≠ [])
    (hP : ∀ c ∈ members, P c) : Sized P (Glob.oneOf members) 1 := by
  apply Sized.of_single
  · intro t ht
    obtain ⟨c, -, rfl⟩ := Glob.mem_oneOf_iff.mp ht
    rfl
  · obtain ⟨c, hc⟩ := List.exists_mem_of_ne_nil members hne
    exact ⟨[c], Glob.mem_oneOf_iff.mpr ⟨c, hc, rfl⟩, by simpa using hP c hc⟩

/-- A plain character matches one character. -/
private theorem sized_atom {c : UInt8} {r : RegularExpression UInt8} (h : atom c = some r)
    (hdot : ∃ d, P d ∧ ¬ IsLineTerminator d) (hP : P c) : Sized P r 1 := by
  unfold atom at h
  split at h
  · cases h
    -- a dot stands for the character that `hdot` gives
    obtain ⟨d, hd, hline⟩ := hdot
    apply Sized.of_single
    · intro t ht
      obtain ⟨e, -, rfl⟩ := mem_anyChar_iff.mp ht
      rfl
    · exact ⟨[d], mem_anyChar_iff.mpr ⟨d, hline, rfl⟩, by simpa using hd⟩
  · split at h
    · cases h
    · cases h
      apply Sized.of_single
      · intro t ht
        rw [RegularExpression.matches'_char] at ht
        rw [ht]
        rfl
      · exact ⟨[c], by rw [RegularExpression.matches'_char]; rfl, by simpa using hP⟩

private theorem plain_of_atom {c : UInt8} {r : RegularExpression UInt8} (h : atom c = some r) :
    Plain c := by
  unfold atom at h
  split at h
  · rename_i hc
    exact .inl hc
  · split at h
    · cases h
    · rename_i hc
      exact .inr hc

/-- A place in a pattern: the members of the class that is open, the current level, and the
    levels around it. -/
structure Position where
  members : Option (List UInt8) := none
  top : Level := {}
  outer : List Level := []

/-- What a character does at a place of a regular expression. -/
inductive Advance (c : UInt8) : Position → Position → Prop where
  | classEnd {members : List UInt8} {top : Level} {outer : List Level} (hc : c = ']'.toUInt8)
      (hne : members ≠ []) :
      Advance c ⟨some members, top, outer⟩ ⟨none, top.push (Glob.oneOf members), outer⟩
  | member {members : List UInt8} {top : Level} {outer : List Level} :
      Advance c ⟨some members, top, outer⟩ ⟨some (members ++ [c]), top, outer⟩
  | groupBegin {top : Level} {outer : List Level} :
      Advance c ⟨none, top, outer⟩ ⟨none, {}, top :: outer⟩
  | groupEnd {top l : Level} {outer : List Level} :
      Advance c ⟨none, top, l :: outer⟩ ⟨none, l.push top.disjunction, outer⟩
  | bar {top : Level} {outer : List Level} :
      Advance c ⟨none, top, outer⟩ ⟨none, top.next, outer⟩
  | classBegin {top : Level} {outer : List Level} :
      Advance c ⟨none, top, outer⟩ ⟨some [], top, outer⟩
  | quantified {top : Level} {outer : List Level} {r : RegularExpression UInt8}
      {q : RegularExpression UInt8 → RegularExpression UInt8} (hq : quantifier c = some q)
      (hlast : top.last = .atom r) :
      Advance c ⟨none, top, outer⟩ ⟨none, top.quantify (q r), outer⟩
  | lazy {top : Level} {outer : List Level} :
      Advance c ⟨none, top, outer⟩ ⟨none, { top with last := .lazy }, outer⟩
  | atom {top : Level} {outer : List Level} {r : RegularExpression UInt8}
      (hatom : atom c = some r) : Advance c ⟨none, top, outer⟩ ⟨none, top.push r, outer⟩

/-- The reader hands the rest of a regular expression on. -/
theorem exists_advance {c : UInt8} {rest : List UInt8} {p : Position}
    {r : RegularExpression UInt8}
    (h : readFrom (c :: rest) p.members p.top p.outer = .regex r) :
    ∃ p', Advance c p p' ∧ readFrom rest p'.members p'.top p'.outer = .regex r := by
  obtain ⟨members, top, outer⟩ := p
  cases members with
  | some members =>
    simp only [readFrom] at h
    split at h
    · rename_i hc
      split at h
      · cases h
      · rename_i hne
        exact ⟨_, .classEnd hc hne, h⟩
    · split at h
      · cases h
      · exact ⟨_, .member, h⟩
  | none =>
    simp only [readFrom] at h
    split at h
    · split at h
      · cases h
      · exact ⟨_, .groupBegin, h⟩
    split at h
    · split at h
      · cases h
      · exact ⟨_, .groupEnd, h⟩
    split at h
    · exact ⟨_, .bar, h⟩
    split at h
    · exact ⟨_, .classBegin, h⟩
    split at h
    · -- a quantifier behind an atom
      rename_i hq hlast
      exact ⟨_, .quantified hq hlast, h⟩
    · cases h
    · split at h
      · exact ⟨_, .lazy, h⟩
      · cases h
    · cases h
    · split at h
      · rename_i hatom
        exact ⟨_, .atom hatom, h⟩
      · cases h

/-- The levels at a place fit, and the class that is open can only match what has the
    property. -/
structure Position.Fits (P : UInt8 → Prop) (p : Position) (k : Nat) : Prop where
  members : ∀ ms, p.members = some ms → ∀ c ∈ ms, P c
  levels : StackFits P (p.top :: p.outer) k

/-- **One character.** The bound is raised by those that are counted. -/
theorem Advance.fits {c : UInt8} {p p' : Position} {k : Nat} (h : Advance c p p')
    (hdot : ∃ d, P d ∧ ¬ IsLineTerminator d) (hc : P c) (hp : p.Fits P k) :
    p'.Fits P (k + if weighs c then 1 else 0) := by
  obtain ⟨hmembers, i, j, hij, htop, houter⟩ := hp
  cases h with
  | classEnd hend hne =>
    have hweighs : weighs c = true := by
      rw [hend]
      decide
    -- a class counts where it ends, and only once
    have hclass := sized_oneOf hne (hmembers _ rfl)
    rw [if_pos hweighs]
    exact ⟨by simp, i + 1, j, by omega, htop.push hclass, houter⟩
  | member =>
    refine ⟨?_, i, j, by omega, htop, houter⟩
    intro ms hms d hd
    obtain rfl := Option.some.inj hms
    cases List.mem_append.mp hd with
    | inl hd => exact hmembers _ rfl d hd
    | inr hd => exact List.mem_singleton.mp hd ▸ hc
  | groupBegin => exact ⟨by simp, 0, k, by omega, .empty, i, j, hij, htop, houter⟩
  | groupEnd =>
    -- the group becomes an atom of the level around it
    obtain ⟨i', j', hij', hl, houter⟩ := houter
    exact ⟨by simp, i' + i, j', by omega, hl.push htop.disjunction, houter⟩
  | bar => exact ⟨by simp, i, j, by omega, htop.next, houter⟩
  | classBegin => exact ⟨by simp, i, j, by omega, htop, houter⟩
  | quantified hq hlast => exact ⟨by simp, i, j, by omega, htop.quantify hlast hq, houter⟩
  | lazy => exact ⟨by simp, i, j, by omega, htop.lazy, houter⟩
  | atom hatom =>
    have hweighs : weighs c = true := by simp [weighs, plain_of_atom hatom]
    rw [if_pos hweighs]
    exact ⟨by simp, i + 1, j, by omega, htop.push (sized_atom hatom hdot hc), houter⟩

/-- A pattern matches texts that have at most as many characters as are counted in it, unless
    there is no bound for them. -/
private theorem readFrom_sized (hdot : ∃ d, P d ∧ ¬ IsLineTerminator d) {rest : List UInt8}
    {p : Position} {k : Nat} {r : RegularExpression UInt8}
    (h : readFrom rest p.members p.top p.outer = .regex r) (hrest : ∀ c ∈ rest, P c)
    (hp : p.Fits P k) : Sized P r (k + rest.countP weighs) := by
  induction rest generalizing p k with
  | nil =>
    obtain ⟨members, top, outer⟩ := p
    obtain ⟨-, i, j, hij, htop, -⟩ := hp
    cases members with
    -- a class or a group that is open at the end gives no expression
    | some ms => simp [readFrom] at h
    | none =>
      cases outer with
      | cons l outer => simp [readFrom] at h
      | nil =>
        simp only [readFrom, Reading.regex.injEq] at h
        rw [← h]
        exact htop.disjunction.mono (by omega)
  | cons c rest ih =>
    obtain ⟨hc, hrest⟩ := List.forall_mem_cons.mp hrest
    obtain ⟨p', hadvance, h'⟩ := exists_advance h
    have hsized := ih h' hrest (hadvance.fits hdot hc hp)
    rw [List.countP_cons]
    exact hsized.mono (by omega)

/-- **The length of what is matched.** -/
theorem read_sized (hdot : ∃ d, P d ∧ ¬ IsLineTerminator d) {p : List UInt8}
    {r : RegularExpression UInt8} (h : read p = .regex r) (hP : ∀ c ∈ p, P c) :
    Sized P r (p.countP weighs) := by
  have hbegin : Position.Fits P {} 0 := ⟨by simp, 0, 0, Nat.le_refl 0, .empty, trivial⟩
  have hread : readFrom p none {} [] = .regex r := h
  have hsized := readFrom_sized hdot hread hP hbegin
  exact hsized.mono (by omega)

/-! ## Plain patterns -/

/-- What a plain character stands for. -/
def Stands (c d : UInt8) : Prop := if c = dot then ¬ IsLineTerminator d else d = c

/-- Texts that a pattern stands for when it has no dot. -/
theorem forall_stands_iff {p t : List UInt8} (hp : dot ∉ p) : List.Forall₂ Stands p t ↔ t = p := by
  induction p generalizing t with
  | nil => exact List.forall₂_nil_left_iff
  | cons c p ih =>
    rw [List.mem_cons, not_or] at hp
    have hstands : ∀ d, Stands c d ↔ d = c := fun d => by rw [Stands, if_neg (Ne.symm hp.1)]
    rw [List.forall₂_cons_left_iff]
    simp [hstands, ih hp.2]

/-- A plain character is an atom. -/
theorem Plain.exists_atom {c : UInt8} (h : Plain c) :
    ∃ a, atom c = some a ∧ ∀ t, t ∈ a.matches' ↔ ∃ d, Stands c d ∧ t = [d] := by
  by_cases hdot : c = dot
  · refine ⟨anyChar, if_pos hdot, ?_⟩
    intro t
    simp only [Stands, hdot, if_true]
    exact mem_anyChar_iff
  · refine ⟨.char c, by rw [atom, if_neg hdot, if_neg (h.resolve_left hdot)], ?_⟩
    intro t
    simp only [Stands, hdot, if_false, RegularExpression.matches'_char, exists_eq_left]
    rfl

/-- An atom is put after the current alternative. -/
theorem readFrom_atom {c : UInt8} {a : RegularExpression UInt8} (h : atom c = some a)
    (rest : List UInt8) (top : Level) (outer : List Level) :
    readFrom (c :: rest) none top outer = readFrom rest none (top.push a) outer := by
  have hplain := plain_of_atom h
  -- all that is read otherwise is a metacharacter other than the dot
  have hne : ∀ d ∈ metacharacters, d ≠ dot → c ≠ d := by
    intro d hd hdot hcd
    subst hcd
    exact hplain.elim hdot fun hnot => hnot hd
  have hopen : c ≠ '('.toUInt8 := hne _ (by decide) (by decide)
  have hclose : c ≠ ')'.toUInt8 := hne _ (by decide) (by decide)
  have hbar : c ≠ '|'.toUInt8 := hne _ (by decide) (by decide)
  have hclass : c ≠ '['.toUInt8 := hne _ (by decide) (by decide)
  have hquantifier : quantifier c = none := by
    have hstar : c ≠ star := hne _ (by decide) (by decide)
    have hplus : c ≠ '+'.toUInt8 := hne _ (by decide) (by decide)
    have hquestion : c ≠ '?'.toUInt8 := hne _ (by decide) (by decide)
    simp only [quantifier, hstar, hplus, hquestion, if_false]
  simp only [readFrom, hopen, hclose, hbar, hclass, if_false, hquantifier, h]

/-- All of them are put after the current alternative. -/
private theorem readFrom_plain {rest : List UInt8} (h : ∀ c ∈ rest, Plain c) {top : Level}
    (hbefore : top.before = none) :
    ∃ r, readFrom rest none top [] = .regex r ∧ ∀ t, t ∈ r.matches' ↔
      ∃ u v, t = u ++ v ∧ u ∈ top.alternative.matches' ∧ List.Forall₂ Stands rest v := by
  induction rest generalizing top with
  | nil =>
    refine ⟨top.disjunction, rfl, ?_⟩
    intro t
    simp [Level.disjunction, hbefore]
  | cons c rest ih =>
    obtain ⟨hc, hrest⟩ := List.forall_mem_cons.mp h
    obtain ⟨a, hatom, ha⟩ := hc.exists_atom
    have hpush : (top.push a).before = none := hbefore
    obtain ⟨r, hr, hmatch⟩ := ih hrest hpush
    refine ⟨r, (readFrom_atom hatom rest top []).trans hr, ?_⟩
    have halternative : (top.push a).alternative = top.alternative * a := rfl
    intro t
    rw [hmatch, halternative, RegularExpression.matches'_mul]
    constructor
    · intro ⟨w, v, ht, hw, hv⟩
      -- the character goes from the end of the first part to the front of the second
      obtain ⟨u, hu, x, hx, huw⟩ := Language.mem_mul.mp hw
      obtain ⟨d, hd, hxd⟩ := (ha x).mp hx
      refine ⟨u, d :: v, ?_, hu, .cons hd hv⟩
      rw [ht, ← huw, hxd, List.append_assoc]
      rfl
    · intro ⟨u, w, ht, hu, hw⟩
      obtain ⟨d, v, hd, hv, hdv⟩ := List.forall₂_cons_left_iff.mp hw
      refine ⟨u ++ [d], v, ?_, ?_, hv⟩
      · rw [ht, hdv, List.append_assoc]
        rfl
      · exact Language.mem_mul.mpr ⟨u, hu, [d], (ha [d]).mpr ⟨d, hd, rfl⟩, rfl⟩

/-- **Plain patterns.** Each character stands for one. -/
theorem exists_read_plain {p : List UInt8} (h : ∀ c ∈ p, Plain c) :
    ∃ r, read p = .regex r ∧ ∀ t, t ∈ r.matches' ↔ List.Forall₂ Stands p t := by
  have hnone : ({} : Level).before = none := rfl
  obtain ⟨r, hr, hmatch⟩ := readFrom_plain h hnone
  refine ⟨r, hr, ?_⟩
  intro t
  have hone : ∀ u, u ∈ (Level.alternative {}).matches' ↔ u = [] := fun u => by
    show u ∈ RegularExpression.matches' 1 ↔ _
    rw [RegularExpression.matches'_epsilon, Language.mem_one]
  simp only [hmatch, hone]
  simp

/-- A class that ends has begun. -/
private theorem plain_of_readFrom {rest : List UInt8} (h : ∀ c ∈ rest, weighs c = true)
    {top : Level} {r : RegularExpression UInt8} (hr : readFrom rest none top [] = .regex r) :
    ∀ c ∈ rest, Plain c := by
  induction rest generalizing top with
  | nil => simp
  | cons c rest ih =>
    obtain ⟨hc, hrest⟩ := List.forall_mem_cons.mp h
    rw [weighs, decide_eq_true_iff] at hc
    cases hc with
    | inl hc =>
      obtain ⟨a, hatom, -⟩ := hc.exists_atom
      rw [readFrom_atom hatom] at hr
      exact List.forall_mem_cons.mpr ⟨hc, ih hrest hr⟩
    | inr hc =>
      -- a `]` outside of a class
      subst hc
      have hunknown : readFrom (']'.toUInt8 :: rest) none top [] = .unknown := rfl
      rw [hunknown] at hr
      cases hr

/-- **Nothing but itself.** A pattern that matches itself, and no other text with the property,
    has no metacharacters: with a quantifier, a group, a class or a bar it is longer than what
    it matches, or there is no bound for that, and a dot stands for other characters too. -/
theorem no_metacharacters_of_only {p : List UInt8} {r : RegularExpression UInt8}
    (hr : read p = .regex r) (hP : ∀ c ∈ p, P c)
    (hother : ∃ d, P d ∧ d ≠ dot ∧ ¬ IsLineTerminator d) (hself : p ∈ r.matches')
    (honly : ∀ t, Has P r t → t = p) : ∀ c ∈ p, c ∉ metacharacters := by
  obtain ⟨d, hd, hne, hline⟩ := hother
  have hlen := (read_sized ⟨d, hd, hline⟩ hr hP).length_le_of_only ⟨hself, hP⟩ honly
  have hweighs : ∀ c ∈ p, weighs c = true :=
    List.countP_eq_length.mp (Nat.le_antisymm List.countP_le_length hlen)
  have hplain := plain_of_readFrom hweighs hr
  obtain ⟨r', hr', hmatch⟩ := exists_read_plain hplain
  obtain rfl : r = r' := Reading.regex.inj (hr.symm.trans hr')
  -- `d` in the place of every dot
  let other := fun c => if c = dot then d else c
  have hstands : List.Forall₂ Stands p (p.map other) := by
    rw [List.forall₂_map_right_iff, List.forall₂_same]
    intro c hc
    by_cases hdot : c = dot
    · simpa only [Stands, other, hdot, if_true] using hline
    · simp only [Stands, other, hdot, if_false]
  have hother : ∀ c ∈ p.map other, P c := by
    intro c hc
    obtain ⟨e, he, rfl⟩ := List.mem_map.mp hc
    by_cases hdot : e = dot
    · simpa only [other, hdot, if_true] using hd
    · simpa only [other, hdot, if_false] using hP e he
  have heq := honly (p.map other) ⟨(hmatch _).mpr hstands, hother⟩
  intro c hc
  refine (hplain c hc).resolve_left fun hdot => ?_
  have hsame : other c = c := List.map_inj_left.mp (heq.trans (List.map_id p).symm) c hc
  simp only [other, hdot, if_true] at hsame
  exact hne hsame

/-! ## The part without groups -/

/-- A star behind an atom. -/
private theorem readFrom_star {a : RegularExpression UInt8} (rest : List UInt8) {top : Level}
    (h : top.last = .atom a) (outer : List Level) :
    readFrom (star :: rest) none top outer = readFrom rest none (top.quantify a.star) outer := by
  have hopen : star ≠ '('.toUInt8 := by decide
  have hclose : star ≠ ')'.toUInt8 := by decide
  have hbar : star ≠ '|'.toUInt8 := by decide
  have hclass : star ≠ '['.toUInt8 := by decide
  have hquantifier : quantifier star = some fun r => r.star := if_pos rfl
  simp only [readFrom, hopen, hclose, hbar, hclass, if_false, hquantifier, h]

/-- What is parsed without groups is read as the same language. -/
private theorem readFrom_of_parse {p : List UInt8} {r : RegularExpression UInt8}
    (h : parse p = some r) {top : Level} (hbefore : top.before = none) :
    ∃ r', readFrom p none top [] = .regex r' ∧
      r'.matches' = top.alternative.matches' * r.matches' := by
  induction p using parse.induct generalizing r top with
  | case1 =>
    obtain rfl := Option.some.inj h
    -- without a bar there is only one alternative
    refine ⟨top.disjunction, rfl, ?_⟩
    rw [Level.disjunction, hbefore, RegularExpression.matches'_epsilon, mul_one]
  | case2 c =>
    simp only [parse, Option.bind_eq_bind, Option.bind_eq_some_iff, Option.pure_def,
      Option.some.injEq] at h
    obtain ⟨a, hatom, rfl⟩ := h
    refine ⟨(top.push a).disjunction, readFrom_atom hatom [] top [], ?_⟩
    have hdisjunction : (top.push a).disjunction = top.alternative * a := by
      rw [Level.disjunction, Level.push, hbefore]
      rfl
    rw [hdisjunction, RegularExpression.matches'_mul, RegularExpression.matches'_mul,
      RegularExpression.matches'_epsilon, mul_one]
  | case3 c rest ih =>
    simp only [parse, if_true, Option.bind_eq_bind, Option.bind_eq_some_iff, Option.pure_def,
      Option.some.injEq] at h
    obtain ⟨a, hatom, s, hs, rfl⟩ := h
    -- an atom with a star behind it: the quantifier takes the atom that was put last
    have hquantified : ((top.push a).quantify a.star).before = none := hbefore
    obtain ⟨r', hr', hmatches⟩ := ih hs hquantified
    refine ⟨r', ?_, ?_⟩
    · rw [readFrom_atom hatom, readFrom_star rest rfl, hr']
    · have halternative : ((top.push a).quantify a.star).alternative =
          top.alternative * a.star := rfl
      rw [hmatches, halternative, RegularExpression.matches'_mul, RegularExpression.matches'_mul,
        mul_assoc]
  | case4 c d rest hd ih =>
    simp only [parse, if_neg hd, Option.bind_eq_bind, Option.bind_eq_some_iff, Option.pure_def,
      Option.some.injEq] at h
    obtain ⟨a, hatom, s, hs, rfl⟩ := h
    have hpush : (top.push a).before = none := hbefore
    obtain ⟨r', hr', hmatches⟩ := ih hs hpush
    refine ⟨r', (readFrom_atom hatom _ top []).trans hr', ?_⟩
    have halternative : (top.push a).alternative = top.alternative * a := rfl
    rw [hmatches, halternative, RegularExpression.matches'_mul, RegularExpression.matches'_mul,
      mul_assoc]

/-- **The part without groups.** A matcher for the larger part is one for the smaller part. -/
theorem ImplementsGroups.implements {regexMatch : (pattern text : List UInt8) → Option Bool}
    (h : ImplementsGroups regexMatch) : Implements regexMatch := by
  intro pattern r hr text
  have hnone : ({} : Level).before = none := rfl
  obtain ⟨r', hread, hmatches⟩ := readFrom_of_parse hr hnone
  have halternative : (Level.alternative {}).matches' = 1 := RegularExpression.matches'_epsilon
  rw [halternative, one_mul] at hmatches
  rw [h.regex pattern r' hread, Option.some.injEq, Bool.eq_iff_iff,
    RegularExpression.rmatch_iff_matches', RegularExpression.rmatch_iff_matches', hmatches]

end EcmaRegex
