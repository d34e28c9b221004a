import Mathlib.Algebra.Group.Nat.Defs
import Mathlib.Data.List.Basic
import Mathlib.Data.List.TakeWhile

/-!
# Byte strings

`std::string` and `std::vector<char>` are lists of bytes. This file holds the
string helpers that the parser rests on: the C-string view of a `std::string`,
`icase_cmp` of `hpl_str.h`, the `next_char` lambda of `HttpHeaderParser::PushLine`,
the integer loads of the method and version recognisers, and `atoi`.
-/

namespace Httpoll.Native

/-- `std::string`, `std::string_view` and `std::vector<char>`. -/
abbrev Bytes := List UInt8

/-- The bytes of an ASCII literal. -/
def ascii (s : String) : Bytes := s.toList.map Char.toUInt8

/-- `'\r'` -/
def CR : UInt8 := 13

/-- `'\n'` -/
def LF : UInt8 := 10

/-- `' '` -/
def SP : UInt8 := 32

/-- `','` -/
def COMMA : UInt8 := 44

/-- `':'` -/
def COLON : UInt8 := 58

/-- The empty line that ends the headers. -/
def crlf : Bytes := [CR, LF]

/-! ## Memory of a string -/

/-- The byte at `data() + i`. At `size()` it is the terminating NUL; further out the
    content is not determined, and no caller's result depends on it. -/
def byteAt (s : Bytes) (i : Nat) : UInt8 := s.getD i 0

/-- `*(unsigned short *)(data() + i)` on a little-endian machine. -/
def load16 (s : Bytes) (i : Nat) : Nat := (byteAt s i).toNat ||| (byteAt s (i + 1)).toNat <<< 8

/-- `*(int *)(data() + i)` on a little-endian machine, as an unsigned value. -/
def load32 (s : Bytes) (i : Nat) : Nat :=
  (byteAt s i).toNat ||| (byteAt s (i + 1)).toNat <<< 8 |||
    (byteAt s (i + 2)).toNat <<< 16 ||| (byteAt s (i + 3)).toNat <<< 24

/-- `std::string_view(s.data() + off)`: the bytes from `off` up to the first NUL. -/
def cString (s : Bytes) (off : Nat) : Bytes := (s.drop off).takeWhile (· != 0)

/-! ## `hpl_str.h` -/

/-- `std::tolower` in the "C" locale. -/
def tolower (c : UInt8) : UInt8 := if 65 ≤ c ∧ c ≤ 90 then c + 32 else c

/-- `icase_cmp`: compares only as many characters as the shorter string has. -/
def icaseCmp (s1 s2 : Bytes) : Bool :=
  let distance := min s1.length s2.length
  (s1.take distance).map tolower == (s2.take distance).map tolower

/-! ## `next_char` -/

/-- The scanning loop of `next_char`, over the characters from index `iter` on. -/
def nextCharFrom (pred : UInt8 → Bool) : Bytes → Nat → Nat
  | [], iter => iter
  | c :: rest, iter => if pred c then iter else nextCharFrom pred rest (iter + 1)

/-- `next_char`: the index of the first character from `off` on that meets the
    predicate, the end of the string when there is none. -/
def nextChar (s : Bytes) (off : Nat) (pred : UInt8 → Bool) : Nat :=
  if off ≥ s.length then s.length else nextCharFrom pred (s.drop off) off

/-! ## `atoi` -/

/-- `std::isspace` in the "C" locale. -/
def isSpace (c : UInt8) : Bool := c == SP || (9 ≤ c && c ≤ 13)

/-- `std::isdigit` -/
def isDigit (c : UInt8) : Bool := 48 ≤ c && c ≤ 57

/-- The number that a string of decimal digits stands for. -/
def decimalValue (ds : Bytes) : Nat := ds.foldl (fun acc c => acc * 10 + (c.toNat - 48)) 0

/-- glibc's `atoi` stored in an `unsigned`: `strtol`, which saturates at the bounds of a
    64-bit `long`, then cut to 32 bits. -/
def atoi (s : Bytes) : UInt32 :=
  match s.dropWhile isSpace with
  | [] => 0
  | c :: rest =>
    if c = 45 then -- '-'
      -UInt32.ofNat (min (decimalValue (rest.takeWhile isDigit)) (2 ^ 63))
    else if c = 43 then -- '+'
      UInt32.ofNat (min (decimalValue (rest.takeWhile isDigit)) (2 ^ 63 - 1))
    else
      UInt32.ofNat (min (decimalValue ((c :: rest).takeWhile isDigit)) (2 ^ 63 - 1))

/-! ## Properties of `next_char` -/

theorem nextCharFrom_eq (pred : UInt8 → Bool) (s : Bytes) (iter : Nat) :
    nextCharFrom pred s iter = iter + (s.takeWhile fun c => !pred c).length := by
  induction s generalizing iter with
  | nil => rfl
  | cons c rest ih =>
    simp only [nextCharFrom, List.takeWhile_cons]
    cases pred c with
    | true => rfl
    | false =>
      simp only [Bool.false_eq_true, ↓reduceIte, Bool.not_false, List.length_cons, ih]
      omega

/-- `next_char` skips the longest run of characters that fail the predicate. -/
theorem nextChar_eq (s : Bytes) {off : Nat} (pred : UInt8 → Bool) (h : off ≤ s.length) :
    nextChar s off pred = off + ((s.drop off).takeWhile fun c => !pred c).length := by
  unfold nextChar
  split
  · have hoff : off = s.length := by omega
    simp [hoff]
  · exact nextCharFrom_eq pred (s.drop off) off

theorem nextChar_of_length_le {s : Bytes} {off : Nat} (pred : UInt8 → Bool)
    (h : s.length ≤ off) : nextChar s off pred = s.length := by
  simp [nextChar, h]

/-- `next_char` never leaves the string. -/
theorem nextChar_le_length (s : Bytes) (off : Nat) (pred : UInt8 → Bool) :
    nextChar s off pred ≤ s.length := by
  by_cases h : off ≤ s.length
  · rw [nextChar_eq s pred h]
    have := ((s.drop off).takeWhile_sublist fun c => !pred c).length_le
    rw [List.length_drop] at this
    omega
  · rw [nextChar_of_length_le pred (by omega)]

/-- `next_char` does not move backwards. -/
theorem le_nextChar {s : Bytes} {off : Nat} (pred : UInt8 → Bool) (h : off ≤ s.length) :
    off ≤ nextChar s off pred := by
  rw [nextChar_eq s pred h]
  omega

/-- `next_char` stops at the first character that meets the predicate. -/
theorem nextChar_append (pre mid rest : Bytes) {c : UInt8} {pred : UInt8 → Bool}
    (hmid : ∀ x ∈ mid, pred x = false) (hc : pred c = true) :
    nextChar (pre ++ (mid ++ c :: rest)) pre.length pred = pre.length + mid.length := by
  have htake : (mid ++ c :: rest).takeWhile (fun c => !pred c) = mid := by
    rw [List.takeWhile_append_of_pos (by simpa using hmid),
      List.takeWhile_cons_of_neg (by simp [hc]), List.append_nil]
  rw [nextChar_eq _ pred (by simp), List.drop_left, htake]

/-- What is left of the string from the place `next_char` finds. -/
theorem drop_nextChar (s : Bytes) (off : Nat) (pred : UInt8 → Bool) :
    s.drop (nextChar s off pred) = (s.drop off).dropWhile fun c => !pred c := by
  by_cases h : off ≤ s.length
  · rw [nextChar_eq s pred h, ← List.drop_drop]
    have hsplit := List.takeWhile_append_dropWhile (p := fun c => !pred c) (l := s.drop off)
    exact (congrArg (List.drop _) hsplit.symm).trans List.drop_left
  · rw [nextChar_of_length_le pred (by omega), List.drop_length,
      List.drop_of_length_le (by omega : s.length ≤ off)]
    rfl

/-- `next_char` for the first character other than `c`: the text without the leading `c`s. -/
theorem drop_nextChar_bne (s : Bytes) (off : Nat) (c : UInt8) :
    s.drop (nextChar s off (· != c)) = (s.drop off).dropWhile (· == c) := by
  rw [drop_nextChar]
  congr 1
  funext x
  simp [bne]

/-- Blanks that a later scan skips as well need not be skipped first. -/
theorem dropWhile_blanks {pred : UInt8 → Bool} (hsp : pred SP = true) (s : Bytes) :
    (s.dropWhile (· == SP)).dropWhile pred = s.dropWhile pred := by
  induction s with
  | nil => rfl
  | cons c s ih =>
    by_cases hc : c = SP
    · subst hc
      rw [List.dropWhile_cons_of_pos (by decide), List.dropWhile_cons_of_pos hsp, ih]
    · rw [List.dropWhile_cons_of_neg (by simp [hc])]

/-- A predicate that always holds stops `next_char` where it starts. -/
theorem nextChar_of_forall {s : Bytes} {off : Nat} {pred : UInt8 → Bool}
    (hpred : ∀ c, pred c = true) (h : off ≤ s.length) : nextChar s off pred = off := by
  have htake : (s.drop off).takeWhile (fun c => !pred c) = [] := by
    rw [List.takeWhile_eq_nil_iff]
    intro _
    simp [hpred]
  rw [nextChar_eq s pred h, htake, List.length_nil, Nat.add_zero]

/-- The character that `next_char` stops at meets the predicate. -/
theorem pred_nextChar {s : Bytes} {off : Nat} {pred : UInt8 → Bool}
    (h : nextChar s off pred < s.length) : pred (byteAt s (nextChar s off pred)) = true := by
  have hdrop := drop_nextChar s off pred
  rw [List.drop_eq_getElem_cons h] at hdrop
  have hhead := List.head_dropWhile_not (p := fun c => !pred c) (l := s.drop off)
    (by rw [← hdrop]; exact List.cons_ne_nil _ _)
  simp only [← hdrop, List.head_cons, Bool.not_eq_eq_eq_not, Bool.not_false] at hhead
  simpa [byteAt, List.getD_eq_getElem?_getD, List.getElem?_eq_getElem h] using hhead

/-- A second scan with the same predicate stays where the first one stopped. -/
theorem nextChar_nextChar (s : Bytes) (off : Nat) (pred : UInt8 → Bool) :
    nextChar s (nextChar s off pred) pred = nextChar s off pred := by
  have hle := nextChar_le_length s off pred
  rcases Nat.lt_or_ge (nextChar s off pred) s.length with hlt | hge
  · have hpred := pred_nextChar hlt
    rw [nextChar_eq s pred hle, List.drop_eq_getElem_cons hlt]
    simp [byteAt, List.getD_eq_getElem?_getD, List.getElem?_eq_getElem hlt] at hpred
    simp [hpred]
  · rw [nextChar_of_length_le pred hge]
    omega

/-! ## Properties of `icase_cmp` -/

@[simp] theorem icaseCmp_nil_left (s : Bytes) : icaseCmp [] s = true := by
  simp [icaseCmp]

@[simp] theorem icaseCmp_nil_right (s : Bytes) : icaseCmp s [] = true := by
  simp [icaseCmp]

@[simp] theorem icaseCmp_cons_cons (c d : UInt8) (s1 s2 : Bytes) :
    icaseCmp (c :: s1) (d :: s2) = (tolower c == tolower d && icaseCmp s1 s2) := by
  simp only [icaseCmp, List.length_cons, Nat.add_min_add_right, List.take_succ_cons,
    List.map_cons, List.cons_beq_cons]

/-- When the text is at least as long as the pattern, `icase_cmp` says that it begins
    with the pattern, letter case aside. -/
theorem icaseCmp_eq_true_iff {s1 s2 : Bytes} (h : s2.length ≤ s1.length) :
    icaseCmp s1 s2 = true ↔ (s1.take s2.length).map tolower = s2.map tolower := by
  simp [icaseCmp, Nat.min_eq_right h]

/-- So it does when the text has a character that the pattern does not have, in neither
    case: a shorter text then never compares equal. -/
theorem icaseCmp_eq_true_iff_isPrefix {s1 s2 : Bytes} {c : UInt8} (hc : c ∈ s1)
    (hnot : tolower c ∉ s2.map tolower) :
    icaseCmp s1 s2 = true ↔ s2.map tolower <+: s1.map tolower := by
  induction s2 generalizing s1 with
  | nil => simp
  | cons d s2 ih =>
    rw [List.map_cons, List.mem_cons, not_or] at hnot
    cases s1 with
    | nil => exact absurd hc (by simp)
    | cons x s1 =>
      rw [icaseCmp_cons_cons, List.map_cons, List.map_cons, List.cons_prefix_cons,
        Bool.and_eq_true, beq_iff_eq, eq_comm]
      rcases List.mem_cons.mp hc with rfl | hc
      · -- the character itself ends the comparison
        simp [Ne.symm hnot.1]
      · rw [ih hc hnot.2]

/-- A text that begins with the pattern, letter case aside, compares equal to it. -/
theorem icaseCmp_append {t w : Bytes} (h : t.map tolower = w.map tolower) (rest : Bytes) :
    icaseCmp (t ++ rest) w = true := by
  have hlen : t.length = w.length := by simpa using congrArg List.length h
  rw [icaseCmp_eq_true_iff (by simp [hlen]), ← hlen, List.take_left, h]

/-- A text that compares unequal does so whatever follows it, and however it is spelled. -/
theorem icaseCmp_append_of_false {t t' w : Bytes} (hsame : t.map tolower = t'.map tolower)
    (h : icaseCmp t' w = false) (rest : Bytes) : icaseCmp (t ++ rest) w = false := by
  induction t generalizing t' w with
  | nil =>
    obtain rfl : t' = [] := by simpa using hsame.symm
    exact absurd h (by simp)
  | cons c t ih =>
    obtain ⟨c', t', rfl, hc, ht⟩ := List.map_eq_cons_iff.mp hsame.symm
    cases w with
    | nil => exact absurd h (by simp)
    | cons d w =>
      rw [icaseCmp_cons_cons, hc] at h
      rw [List.cons_append, icaseCmp_cons_cons]
      -- they differ in the first letter or after it
      rcases Bool.and_eq_false_iff.mp h with hd | hrest
      · rw [hd, Bool.false_and]
      · rw [ih ht.symm hrest, Bool.and_false]

end Httpoll.Native
