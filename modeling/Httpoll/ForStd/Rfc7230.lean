import Mathlib.Data.List.DropRight
import Mathlib.Data.List.TakeWhile
import Httpoll.ForStd.Lines

/-!
# RFC 7230 responses

HTTP responses as a client reads them: the status line, the header fields, and where the body
ends. A body ends with its length when a field gives it, at once for the codes that have none,
and else when the connection is closed. Transfer codings are not read. The responses are those
to requests other than HEAD and CONNECT.

## Key results

- `decode_encode_iff`: a response reads back, whatever follows it, when the head tells its
  length, and when nothing follows it if the head leaves it to the close of the connection
- `reads_iff`: so does a stream of responses
-/

namespace Rfc7230

/-! ## Texts -/

def isDigit (b : UInt8) : Bool := 48 ≤ b && b ≤ 57

/-- A byte of a `token`. -/
def isTchar (b : UInt8) : Bool :=
  isDigit b || (65 ≤ b && b ≤ 90) || (97 ≤ b && b ≤ 122) ||
    ("!#$%&'*+-.^_`|~".toList.map Char.toUInt8).contains b

/-- A byte of the value of a field, or of a reason phrase. -/
def isText (b : UInt8) : Bool := b == 9 || (32 ≤ b && b != 127)

/-- A blank of `OWS`. -/
def isBlank (b : UInt8) : Bool := b == 32 || b == 9

/-- The value of a field without the blanks around it. -/
def trim (xs : List UInt8) : List UInt8 := (xs.dropWhile isBlank).rdropWhile isBlank

def toLower (b : UInt8) : UInt8 := if 65 ≤ b ∧ b ≤ 90 then b + 32 else b

/-- The number that decimal digits spell. -/
def number (xs : List UInt8) : Option Nat :=
  if xs ≠ [] ∧ xs.all isDigit then
    some (xs.foldl (fun acc b => acc * 10 + (b.toNat - 48)) 0)
  else none

/-- What comes before the first `c`, and what comes after it. -/
def cutAt (c : UInt8) (xs : List UInt8) : Option (List UInt8 × List UInt8) :=
  match xs.dropWhile (· != c) with
  | [] => none
  | _ :: rest => some (xs.takeWhile (· != c), rest)

theorem cutAt_append {c : UInt8} {xs : List UInt8} (h : c ∉ xs) (rest : List UInt8) :
    cutAt c (xs ++ c :: rest) = some (xs, rest) := by
  have hxs : ∀ x ∈ xs, (x != c) = true := by
    intro x hx
    simp only [bne_iff_ne, ne_eq]
    exact fun heq => h (heq ▸ hx)
  rw [cutAt, List.dropWhile_append_of_pos hxs, List.takeWhile_append_of_pos hxs]
  simp

theorem not_mem_of_all {p : UInt8 → Bool} {xs : List UInt8} (h : xs.all p = true) {b : UInt8}
    (hb : p b = false) : b ∉ xs := by
  intro hmem
  rw [List.all_eq_true.mp h b hmem] at hb
  cases hb

/-! ## Heads -/

/-- `HTTP-version` -/
def isVersion : List UInt8 → Bool
  | [72, 84, 84, 80, 47, major, 46, minor] => isDigit major && isDigit minor
  | _ => false

/-- What comes before the body of a response. -/
structure Head where
  version : List UInt8
  code : Nat
  reason : List UInt8
  fields : List (List UInt8 × List UInt8)
  deriving DecidableEq, Repr

/-- `status-line` -/
def statusLine? (line : List UInt8) : Option (List UInt8 × Nat × List UInt8) := do
  let (version, rest) ← cutAt 32 line
  let (digits, reason) ← cutAt 32 rest
  let code ← number digits
  if isVersion version ∧ digits.length = 3 ∧ reason.all isText then some (version, code, reason)
  else none

/-- `header-field` -/
def field? (line : List UInt8) : Option (List UInt8 × List UInt8) := do
  let (name, value) ← cutAt 58 line
  if name ≠ [] ∧ name.all isTchar ∧ value.all isText then some (name, trim value) else none

/-- The head that lines spell. -/
def head? : List (List UInt8) → Option Head
  | [] => none
  | first :: rest => do
    let (version, code, reason) ← statusLine? first
    let fields ← rest.mapM field?
    some { version, code, reason, fields }

/-- The three digits of a code. -/
def codeDigits (code : Nat) : List UInt8 :=
  [UInt8.ofNat (48 + code / 100), UInt8.ofNat (48 + code / 10 % 10), UInt8.ofNat (48 + code % 10)]

/-- A field can be sent. -/
structure FieldOk (e : List UInt8 × List UInt8) : Prop where
  name_ne : e.1 ≠ []
  name : e.1.all isTchar = true
  value : e.2.all isText = true
  trimmed : trim e.2 = e.2

instance (e : List UInt8 × List UInt8) : Decidable (FieldOk e) :=
  decidable_of_iff (e.1 ≠ [] ∧ e.1.all isTchar = true ∧ e.2.all isText = true ∧ trim e.2 = e.2)
    ⟨fun ⟨h₁, h₂, h₃, h₄⟩ => ⟨h₁, h₂, h₃, h₄⟩, fun h => ⟨h.name_ne, h.name, h.value, h.trimmed⟩⟩

/-- A value without any blanks. -/
theorem FieldOk.of_noBlank {e : List UInt8 × List UInt8} (hne : e.1 ≠ [])
    (hname : e.1.all isTchar = true)
    (hvalue : ∀ b ∈ e.2, isText b = true ∧ isBlank b = false) : FieldOk e := by
  refine ⟨hne, hname, List.all_eq_true.mpr fun b hb => (hvalue b hb).1, ?_⟩
  have hleft : e.2.dropWhile isBlank = e.2 := by
    rw [List.dropWhile_eq_self_iff]
    intro hpos
    rw [(hvalue _ (List.getElem_mem hpos)).2]
    exact Bool.false_ne_true
  rw [trim, hleft, List.rdropWhile_eq_self_iff]
  intro hlast
  rw [(hvalue _ (List.getLast_mem hlast)).2]
  exact Bool.false_ne_true

namespace Head

/-- The head can be sent, but for its version. -/
structure WellFormed (h : Head) : Prop where
  version : 32 ∉ h.version ∧ 13 ∉ h.version
  code : h.code < 1000
  reason : h.reason.all isText = true
  fields : ∀ e ∈ h.fields, FieldOk e

/-- The text of the status line. -/
def statusText (h : Head) : List UInt8 :=
  h.version ++ 32 :: (codeDigits h.code ++ 32 :: h.reason)

/-- The text of a field. -/
def fieldText (e : List UInt8 × List UInt8) : List UInt8 := e.1 ++ 58 :: 32 :: e.2

/-- The lines of the head. -/
def lines (h : Head) : List (List UInt8) := h.statusText :: h.fields.map fieldText

/-- The head as it is sent. -/
def encode (h : Head) : List UInt8 := h.lines.flatMap (· ++ [13, 10]) ++ [13, 10]

end Head

/-! ## Heads read back -/

theorem number_codeDigits {code : Nat} (h : code < 1000) :
    number (codeDigits code) = some code := by
  have hbyte : ∀ d, d < 10 → (UInt8.ofNat (48 + d)).toNat = 48 + d := by
    intro d hd
    rw [UInt8.toNat_ofNat']
    omega
  have hdigit : ∀ d, d < 10 → isDigit (UInt8.ofNat (48 + d)) = true := by
    intro d hd
    simp only [isDigit, Bool.and_eq_true, decide_eq_true_eq, UInt8.le_iff_toNat_le, hbyte d hd]
    exact ⟨Nat.le_add_right 48 d, Nat.add_le_add_left (Nat.le_of_lt_succ hd) 48⟩
  have hall : (codeDigits code).all isDigit = true := by
    simp only [codeDigits, List.all_cons, List.all_nil, Bool.and_true, Bool.and_eq_true]
    exact ⟨hdigit _ (by omega), hdigit _ (by omega), hdigit _ (by omega)⟩
  -- the three digits are those of the code
  rw [number, if_pos ⟨List.cons_ne_nil _ _, hall⟩]
  simp only [codeDigits, List.foldl_cons, List.foldl_nil, hbyte _ (show code / 100 < 10 by omega),
    hbyte _ (show code / 10 % 10 < 10 by omega), hbyte _ (show code % 10 < 10 by omega)]
  congr 1
  omega

theorem not_mem_codeDigits {code : Nat} (h : code < 1000) {b : UInt8} (hb : isDigit b = false) :
    b ∉ codeDigits code := by
  have hnumber := number_codeDigits h
  unfold number at hnumber
  split at hnumber
  · rename_i hdigits
    exact not_mem_of_all hdigits.2 hb
  · cases hnumber

/-- The status line is read when its version is one. -/
theorem statusLine?_statusText {h : Head} (hwf : h.WellFormed) :
    statusLine? h.statusText =
      if isVersion h.version then some (h.version, h.code, h.reason) else none := by
  have hdigits : 32 ∉ codeDigits h.code := not_mem_codeDigits hwf.code (by decide)
  rw [statusLine?, Head.statusText, cutAt_append hwf.version.1]
  simp only [Option.bind_eq_bind, Option.bind_some, cutAt_append hdigits,
    number_codeDigits hwf.code, hwf.reason]
  simp [codeDigits]

theorem field?_fieldText {e : List UInt8 × List UInt8} (h : FieldOk e) :
    field? (Head.fieldText e) = some e := by
  have hcolon : 58 ∉ e.1 := not_mem_of_all h.name (by decide)
  have htext : (32 :: e.2).all isText = true := by
    rw [List.all_cons, h.value]
    decide
  have htrim : trim (32 :: e.2) = e.2 := by
    rw [trim, List.dropWhile_cons_of_pos (by decide)]
    exact h.trimmed
  rw [field?, Head.fieldText, cutAt_append hcolon]
  simp only [Option.bind_eq_bind, Option.bind_some, htrim]
  rw [if_pos ⟨h.name_ne, h.name, htext⟩]

theorem mapM_field? {fields : List (List UInt8 × List UInt8)} (h : ∀ e ∈ fields, FieldOk e) :
    (fields.map Head.fieldText).mapM field? = some fields := by
  induction fields with
  | nil => rfl
  | cons e fields ih =>
    rw [List.map_cons, List.mapM_cons, field?_fieldText (h e List.mem_cons_self),
      ih fun e' he' => h e' (List.mem_cons_of_mem e he')]
    rfl

/-- **A head reads back.** -/
theorem head?_lines {h : Head} (hwf : h.WellFormed) :
    head? h.lines = if isVersion h.version then some h else none := by
  simp only [head?, Head.lines, statusLine?_statusText hwf, mapM_field? hwf.fields]
  split <;> rfl

/-- Every line of a head is one that ends at its own CR LF. -/
theorem mem_lines {h : Head} (hwf : h.WellFormed) {line : List UInt8} (hline : line ∈ h.lines) :
    line ≠ [] ∧ 13 ∉ line := by
  rcases List.mem_cons.mp hline with rfl | hline
  · have hreason := not_mem_of_all hwf.reason (b := 13) (by decide)
    have hdigits := not_mem_codeDigits hwf.code (b := 13) (by decide)
    simp only [Head.statusText]
    refine ⟨by simp, ?_⟩
    simp [hwf.version.2, hdigits, hreason]
  · obtain ⟨e, he, rfl⟩ := List.mem_map.mp hline
    have hok := hwf.fields e he
    have hname := not_mem_of_all hok.name (b := 13) (by decide)
    have hvalue := not_mem_of_all hok.value (b := 13) (by decide)
    simp only [Head.fieldText]
    refine ⟨by simp, ?_⟩
    simp [hname, hvalue]

theorem block_encode {h : Head} (hwf : h.WellFormed) (rest : List UInt8) :
    Lines.block 13 10 (h.encode ++ rest) = some (h.lines, rest) := by
  rw [Head.encode, List.append_assoc]
  exact Lines.block_append (fun _ hline => mem_lines hwf hline) rest

/-! ## Bodies -/

/-- How the end of a body is told. -/
inductive Framing where
  /-- There is no body. -/
  | empty
  | length (n : Nat)
  | untilClose
  deriving DecidableEq, Repr

/-- What the lengths tell that fields give. They must be one length. -/
def lengthFraming : List (List UInt8) → Option Framing
  | [] => some .untilClose
  | value :: values =>
    if ∀ other ∈ values, number other = number value then (number value).map .length else none

theorem lengthFraming_eq_length_iff {values : List (List UInt8)} {n : Nat} :
    lengthFraming values = some (.length n) ↔
      values ≠ [] ∧ ∀ value ∈ values, number value = some n := by
  cases values with
  | nil => simp [lengthFraming]
  | cons value values =>
    rw [lengthFraming, Option.ite_none_right_eq_some, Option.map_eq_some_iff, List.forall_mem_cons]
    simp only [Framing.length.injEq, exists_eq_right]
    constructor
    · intro ⟨hsame, hvalue⟩
      exact ⟨List.cons_ne_nil _ _, hvalue, fun other hother => (hsame other hother).trans hvalue⟩
    · intro ⟨_, hvalue, hvalues⟩
      exact ⟨fun other hother => (hvalues other hother).trans hvalue.symm, hvalue⟩

theorem lengthFraming_eq_untilClose_iff {values : List (List UInt8)} :
    lengthFraming values = some .untilClose ↔ values = [] := by
  cases values with
  | nil => simp [lengthFraming]
  | cons value values => simp [lengthFraming]

theorem lengthFraming_ne_empty (values : List (List UInt8)) :
    lengthFraming values ≠ some .empty := by
  cases values with
  | nil => simp [lengthFraming]
  | cons value values => simp [lengthFraming]

namespace Head

/-- The values of the fields of a name, in any case of its letters. -/
def valuesOf (h : Head) (name : List UInt8) : List (List UInt8) :=
  (h.fields.filter fun e => e.1.map toLower = name).map Prod.snd

def contentLength : List UInt8 := "content-length".toList.map Char.toUInt8

def transferEncoding : List UInt8 := "transfer-encoding".toList.map Char.toUInt8

/-- The codes of the responses without a body. -/
def Bodyless (h : Head) : Prop := h.code / 100 = 1 ∨ h.code = 204 ∨ h.code = 304

instance (h : Head) : Decidable h.Bodyless := inferInstanceAs (Decidable (_ ∨ _))

/-- How the head tells the end of the body. -/
def framing (h : Head) : Option Framing :=
  if h.Bodyless then some .empty
  else if h.valuesOf transferEncoding ≠ [] then none
  else lengthFraming (h.valuesOf contentLength)

end Head

/-- A response. -/
structure Response where
  head : Head
  body : List UInt8
  deriving DecidableEq, Repr

/-- The response as it is sent. -/
def Response.encode (r : Response) : List UInt8 := r.head.encode ++ r.body

/-- The body at the front of a stream at whose end the connection is closed. -/
def takeBody : Framing → List UInt8 → Option (List UInt8 × List UInt8)
  | .empty, bytes => some ([], bytes)
  | .length n, bytes => if n ≤ bytes.length then some (bytes.take n, bytes.drop n) else none
  | .untilClose, bytes => some (bytes, [])

/-- Read a response from the front of such a stream. -/
def decode (bytes : List UInt8) : Option (Response × List UInt8) := do
  let (lines, rest) ← Lines.block 13 10 bytes
  let head ← head? lines
  let framing ← head.framing
  let (body, rest) ← takeBody framing rest
  some ({ head, body }, rest)

namespace Response

/-- The head tells where the body ends, and it ends there. -/
def Delimited (r : Response) : Prop :=
  isVersion r.head.version = true ∧
    (r.head.framing = some .empty ∧ r.body = [] ∨
      r.head.framing = some (.length r.body.length))

/-- The body ends when the connection is closed. -/
def UntilClose (r : Response) : Prop :=
  isVersion r.head.version = true ∧ r.head.framing = some .untilClose

end Response

theorem takeBody_append_iff {framing : Framing} {body rest : List UInt8} :
    takeBody framing (body ++ rest) = some (body, rest) ↔
      framing = .empty ∧ body = [] ∨ framing = .length body.length ∨
        framing = .untilClose ∧ rest = [] := by
  cases framing with
  | empty => simp [takeBody, eq_comm]
  | length n =>
    simp only [takeBody, reduceCtorEq, false_and, or_false, false_or, Framing.length.injEq]
    constructor
    · intro h
      obtain ⟨hle, heq⟩ := Option.ite_none_right_eq_some.mp h
      -- a body of another length cannot have been taken
      have htake := congrArg (List.length ∘ Prod.fst) (Option.some.inj heq)
      simp only [Function.comp_apply, List.length_take] at htake
      omega
    · intro h
      rw [h, if_pos (by simp), List.take_left, List.drop_left]
  | untilClose => simp [takeBody, eq_comm]

/-- What the decoder makes of a head that can be sent and the bytes behind it. -/
theorem decode_encode_append {h : Head} (hwf : h.WellFormed) (bytes : List UInt8) :
    decode (h.encode ++ bytes) =
      if isVersion h.version then
        (h.framing.bind fun framing => takeBody framing bytes).map fun p =>
          ({ head := h, body := p.1 }, p.2)
      else none := by
  simp only [decode, block_encode hwf, head?_lines hwf, Option.bind_eq_bind, Option.bind_some]
  split
  · rw [Option.bind_some, Option.map_bind]
    congr 1
    funext framing
    simp only [Function.comp_apply]
    cases takeBody framing bytes <;> rfl
  · rfl

/-- **A response reads back**, and what follows it is left alone, exactly when the head tells
    where the body ends, or nothing follows and the head leaves it to the close. -/
theorem decode_encode_iff {r : Response} (hwf : r.head.WellFormed) (rest : List UInt8) :
    decode (r.encode ++ rest) = some (r, rest) ↔ r.Delimited ∨ rest = [] ∧ r.UntilClose := by
  -- the head reads back in any case, so the body decides
  have hbody : (r.head.framing.bind fun framing => takeBody framing (r.body ++ rest)) =
      some (r.body, rest) ↔
        (r.head.framing = some .empty ∧ r.body = [] ∨
          r.head.framing = some (.length r.body.length)) ∨
          rest = [] ∧ r.head.framing = some .untilClose := by
    cases r.head.framing with
    | none => simp
    | some framing =>
      rw [Option.bind_some, takeBody_append_iff]
      simp only [Option.some.injEq]
      tauto
  rw [Response.encode, List.append_assoc, decode_encode_append hwf]
  unfold Response.Delimited Response.UntilClose
  by_cases hversion : isVersion r.head.version = true
  · rw [if_pos hversion]
    simp only [hversion, true_and, ← hbody, Option.map_eq_some_iff]
    constructor
    · intro ⟨p, hp, heq⟩
      obtain ⟨hresponse, hrest⟩ := Prod.mk.inj heq
      rw [hp, ← hrest, ← hresponse]
    · exact fun h => ⟨_, h, rfl⟩
  · rw [if_neg hversion]
    simp [hversion]

/-! ## Streams -/

/-- The stream is read as these responses, one after the other. -/
def Reads : List UInt8 → List Response → Prop
  | bytes, [] => bytes = []
  | bytes, r :: rs => ∃ rest, decode bytes = some (r, rest) ∧ Reads rest rs

theorem encode_ne_nil (r : Response) : r.encode ≠ [] := by
  simp [Response.encode, Head.encode]

/-- A decoder drops no bytes of a body. -/
theorem eq_append_of_takeBody {framing : Framing} {bytes body rest : List UInt8}
    (h : takeBody framing bytes = some (body, rest)) : bytes = body ++ rest := by
  cases framing with
  | empty => cases h; rfl
  | length n =>
    obtain ⟨-, heq⟩ := Option.ite_none_right_eq_some.mp h
    cases heq
    exact (List.take_append_drop n bytes).symm
  | untilClose => cases h; exact (List.append_nil bytes).symm

/-- Once the response is right, so is the place where it ends. -/
theorem rest_of_decode_encode {r : Response} (hwf : r.head.WellFormed) {bytes rest : List UInt8}
    (h : decode (r.encode ++ bytes) = some (r, rest)) : rest = bytes := by
  rw [Response.encode, List.append_assoc, decode_encode_append hwf] at h
  obtain ⟨-, hmap⟩ := Option.ite_none_right_eq_some.mp h
  obtain ⟨⟨body, rest'⟩, hp, heq⟩ := Option.map_eq_some_iff.mp hmap
  obtain ⟨framing, -, htake⟩ := Option.bind_eq_some_iff.mp hp
  obtain ⟨hresponse, hrest⟩ := Prod.mk.inj heq
  have hbody : body = r.body := congrArg Response.body hresponse
  have happend := eq_append_of_takeBody htake
  rw [hbody] at happend
  exact hrest.symm.trans (List.append_cancel_left happend).symm

/-- A stream that begins with a response. -/
theorem reads_cons_iff {r : Response} (hwf : r.head.WellFormed) {bytes : List UInt8}
    {rs : List Response} :
    Reads (r.encode ++ bytes) (r :: rs) ↔
      (r.Delimited ∨ bytes = [] ∧ r.UntilClose) ∧ Reads bytes rs := by
  rw [← decode_encode_iff hwf]
  constructor
  · intro ⟨rest, hdecode, hrest⟩
    obtain rfl := rest_of_decode_encode hwf hdecode
    exact ⟨hdecode, hrest⟩
  · exact fun ⟨hdecode, hrest⟩ => ⟨bytes, hdecode, hrest⟩

/-- **A stream of responses reads back** exactly when the heads tell where all bodies end, that
    of the last response perhaps by leaving it to the close of the connection. -/
theorem reads_iff {rs : List Response} (hwf : ∀ r ∈ rs, r.head.WellFormed) :
    Reads (rs.flatMap Response.encode) rs ↔
      (∀ r ∈ rs.dropLast, r.Delimited) ∧ ∀ r ∈ rs.getLast?, r.Delimited ∨ r.UntilClose := by
  induction rs with
  | nil => simp [Reads]
  | cons r rs ih =>
    rw [List.flatMap_cons, reads_cons_iff (hwf r List.mem_cons_self),
      ih fun r' hr' => hwf r' (List.mem_cons_of_mem r hr')]
    cases rs with
    | nil => simp
    | cons r' rs =>
      -- something follows the first response
      have hne : (r' :: rs).flatMap Response.encode ≠ [] := by
        simp [encode_ne_nil]
      rw [List.dropLast_cons_of_ne_nil (List.cons_ne_nil r' rs), List.getLast?_cons_cons,
        List.forall_mem_cons, and_assoc]
      simp only [hne, false_and, or_false]

end Rfc7230
