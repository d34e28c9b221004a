import Httpoll.Native.Str

/-!
# The request line

`hpl_method.cc`, `hpl_version.cc` and `HttpHeaderParser::ParseFirstLine`. The
recognisers load the first bytes of a token as one integer and compare it with
packed characters; nothing is checked about what follows the match.

## Key results

- `load32_eq` / `load32_and_low24`: the packed integers as sums of bytes
- `parseHttpMethod_eq`: exactly three method names are recognised
- `parseHttpVersion_eq`, `httpVersion_eq`: the version at the front of a text
- `parseFirstLine_unknown`: an unknown method leaves the URI empty
- `parseFirstLine_blanks`, `parseFirstLine_known`: what a well-formed request line parses to
- `parseHttpVersion_append`: the version does not depend on what comes before it
-/

namespace Httpoll.Native

/-- `hpl::HttpMethod` -/
inductive HttpMethod where
  | GET | POST | PUT | DELETE | HEAD | CONNECT | OPTIONS | TRACE | PATCH
  | UNKNOWN -- make sure this is the last one
  deriving Repr, DecidableEq

/-- `static_cast<int>(method)` -/
def HttpMethod.toNat : HttpMethod → Nat
  | GET => 0 | POST => 1 | PUT => 2 | DELETE => 3 | HEAD => 4
  | CONNECT => 5 | OPTIONS => 6 | TRACE => 7 | PATCH => 8 | UNKNOWN => 9

/-- `hpl::HttpVersion` -/
inductive HttpVersion where
  | HTTP_1_0 | HTTP_1_1 | HTTP_2_0 | WS | UNKNOWN
  deriving Repr, DecidableEq

/-! ## `ParseHttpMethod` -/

def IntGET : Nat := 'G'.toNat ||| 'E'.toNat <<< 8 ||| 'T'.toNat <<< 16
def IntPUT : Nat := 'P'.toNat ||| 'U'.toNat <<< 8 ||| 'T'.toNat <<< 16
def IntPOST : Nat := 'P'.toNat ||| 'O'.toNat <<< 8 ||| 'S'.toNat <<< 16 ||| 'T'.toNat <<< 24

/-- `ParseHttpMethod`: the method and the new value of `end_pos`, which is only
    assigned when a method is recognised. -/
def parseHttpMethod (method : Bytes) (pos endPos : Nat) : HttpMethod × Nat :=
  let v := load32 method pos
  if v &&& 0x00ffffff = IntGET then (.GET, pos + 3)
  else if v &&& 0x00ffffff = IntPUT then (.PUT, pos + 3)
  else if v = IntPOST then (.POST, pos + 4)
  else (.UNKNOWN, endPos)

/-! ## `ParseHttpVersion` -/

def IntHTTP : Nat := 'H'.toNat ||| 'T'.toNat <<< 8 ||| 'T'.toNat <<< 16 ||| 'P'.toNat <<< 24
def IntWS : Nat := 'W'.toNat ||| 'S'.toNat <<< 8 ||| 'S'.toNat <<< 16 ||| '/'.toNat <<< 24
def Int1_0 : Nat := '1'.toNat ||| '.'.toNat <<< 8 ||| '0'.toNat <<< 16
def Int1_1 : Nat := '1'.toNat ||| '.'.toNat <<< 8 ||| '1'.toNat <<< 16
def Int2_0 : Nat := '2'.toNat ||| '.'.toNat <<< 8 ||| '0'.toNat <<< 16

/-- `::HttpVersion` on the text at `version = line.data() + p`. -/
def httpVersion (line : Bytes) (p : Nat) : HttpVersion :=
  let v := load32 line p &&& 0x00ffffff
  if v = Int1_0 then .HTTP_1_0
  else if v = Int1_1 then .HTTP_1_1
  else if v = Int2_0 then .HTTP_2_0
  else .UNKNOWN

/-- `ParseHttpVersion` on the C-string at `version = line.data() + p`. -/
def parseHttpVersion (line : Bytes) (p : Nat) : HttpVersion :=
  let version := cString line p
  let v := load32 line p
  if v = IntHTTP ∧ version.length > 4 ∧ byteAt version 4 = '/'.toUInt8 then
    httpVersion line (p + 5)
  else if v = IntWS then .WS
  else .UNKNOWN

/-- `HttpVersionToString` -/
def httpVersionToString : HttpVersion → Bytes
  | .HTTP_1_0 => ascii "HTTP/1.0"
  | .HTTP_1_1 => ascii "HTTP/1.1"
  | .HTTP_2_0 => ascii "HTTP/2.0"
  | .WS => ascii "WS"
  | .UNKNOWN => ascii "UNKNOWN"

/-! ## `HttpHeaderParser::ParseFirstLine` -/

/-- `line.find(' ', pos)`, `none` for `npos`. -/
def findSpace (line : Bytes) (pos : Nat) : Option Nat :=
  let i := nextChar line pos (· == SP)
  if i < line.length then some i else none

/-- `HttpHeaderParser::ParseFirstLine` -/
def parseFirstLine (line : Bytes) : HttpMethod × Bytes × HttpVersion :=
  let (method, pos) := parseHttpMethod line 0 0
  if method = .UNKNOWN then (.UNKNOWN, [], .UNKNOWN)
  else
    -- `while (line[pos] == ' ') ++pos;` stops at the terminating NUL at the latest
    let pos := nextCharFrom (· != SP) (line.drop pos) pos
    match findSpace line pos with
    | some nextPos =>
      (method, (line.drop pos).take (nextPos - pos), parseHttpVersion line (nextPos + 1))
    | none =>
      -- `npos - pos` takes the rest of the line, and `npos + 1` wraps to its start
      (method, line.drop pos, parseHttpVersion line 0)

/-! ## Packed integers -/

private theorem or_shiftLeft_eq_add {x y : Nat} (n : Nat) (hx : x < 2 ^ n) :
    x ||| y <<< n = x + y <<< n := by
  rw [Nat.or_comm, ← Nat.shiftLeft_add_eq_or_of_lt hx, Nat.add_comm]

/-- The loaded integer as a sum of its bytes. -/
theorem load32_eq (s : Bytes) (i : Nat) :
    load32 s i = (byteAt s i).toNat + (byteAt s (i + 1)).toNat * 2 ^ 8 +
      (byteAt s (i + 2)).toNat * 2 ^ 16 + (byteAt s (i + 3)).toNat * 2 ^ 24 := by
  have h0 := (byteAt s i).toNat_lt
  have h1 := (byteAt s (i + 1)).toNat_lt
  have h2 := (byteAt s (i + 2)).toNat_lt
  unfold load32
  rw [or_shiftLeft_eq_add 8 (by omega), Nat.shiftLeft_eq]
  rw [or_shiftLeft_eq_add 16 (by omega), Nat.shiftLeft_eq]
  rw [or_shiftLeft_eq_add 24 (by omega), Nat.shiftLeft_eq]

/-- `v & 0x00ffffff` keeps the first three bytes. -/
theorem load32_and_low24 (s : Bytes) (i : Nat) :
    load32 s i &&& 0x00ffffff = (byteAt s i).toNat + (byteAt s (i + 1)).toNat * 2 ^ 8 +
      (byteAt s (i + 2)).toNat * 2 ^ 16 := by
  have h0 := (byteAt s i).toNat_lt
  have h1 := (byteAt s (i + 1)).toNat_lt
  have h2 := (byteAt s (i + 2)).toNat_lt
  rw [show (0x00ffffff : Nat) = 2 ^ 24 - 1 from rfl, Nat.and_two_pow_sub_one_eq_mod, load32_eq]
  omega

/-! ## Recognised methods -/

private theorem prefix_three_iff {a b c : UInt8} (ha : a ≠ 0) (hb : b ≠ 0) (hc : c ≠ 0)
    (s : Bytes) : [a, b, c] <+: s ↔ byteAt s 0 = a ∧ byteAt s 1 = b ∧ byteAt s 2 = c := by
  -- behind the end of the string there are only zeros
  match s with
  | [] => simp [byteAt, Ne.symm ha]
  | [x] => simp [byteAt, Ne.symm hb]
  | [x, y] => simp [byteAt, Ne.symm hc]
  | x :: y :: z :: rest => simp [byteAt, List.cons_prefix_cons, eq_comm]

private theorem prefix_four_iff {a b c d : UInt8} (ha : a ≠ 0) (hb : b ≠ 0) (hc : c ≠ 0)
    (hd : d ≠ 0) (s : Bytes) : [a, b, c, d] <+: s ↔
      byteAt s 0 = a ∧ byteAt s 1 = b ∧ byteAt s 2 = c ∧ byteAt s 3 = d := by
  match s with
  | [] => simp [byteAt, Ne.symm ha]
  | [x] => simp [byteAt, Ne.symm hb]
  | [x, y] => simp [byteAt, Ne.symm hc]
  | [x, y, z] => simp [byteAt, Ne.symm hd]
  | x :: y :: z :: w :: rest => simp [byteAt, List.cons_prefix_cons, eq_comm]

private theorem low24_eq_iff (s : Bytes) (a b c : UInt8) :
    load32 s 0 &&& 0x00ffffff = a.toNat + b.toNat * 2 ^ 8 + c.toNat * 2 ^ 16 ↔
      byteAt s 0 = a ∧ byteAt s 1 = b ∧ byteAt s 2 = c := by
  have h0 := (byteAt s 0).toNat_lt
  have h1 := (byteAt s 1).toNat_lt
  have ha := a.toNat_lt
  have hb := b.toNat_lt
  rw [load32_and_low24, ← UInt8.toNat_inj, ← UInt8.toNat_inj, ← UInt8.toNat_inj]
  simp only [Nat.zero_add]
  omega

private theorem load32_eq_iff (s : Bytes) (a b c d : UInt8) :
    load32 s 0 = a.toNat + b.toNat * 2 ^ 8 + c.toNat * 2 ^ 16 + d.toNat * 2 ^ 24 ↔
      byteAt s 0 = a ∧ byteAt s 1 = b ∧ byteAt s 2 = c ∧ byteAt s 3 = d := by
  have h0 := (byteAt s 0).toNat_lt
  have h1 := (byteAt s 1).toNat_lt
  have h2 := (byteAt s 2).toNat_lt
  have ha := a.toNat_lt
  have hb := b.toNat_lt
  have hc := c.toNat_lt
  rw [load32_eq, ← UInt8.toNat_inj, ← UInt8.toNat_inj, ← UInt8.toNat_inj, ← UInt8.toNat_inj]
  simp only [Nat.zero_add]
  omega

theorem load32_eq_get_iff (s : Bytes) :
    load32 s 0 &&& 0x00ffffff = IntGET ↔ ascii "GET" <+: s := by
  rw [show ascii "GET" = [71, 69, 84] from by decide,
    prefix_three_iff (by decide) (by decide) (by decide), ← low24_eq_iff]
  rfl

theorem load32_eq_put_iff (s : Bytes) :
    load32 s 0 &&& 0x00ffffff = IntPUT ↔ ascii "PUT" <+: s := by
  rw [show ascii "PUT" = [80, 85, 84] from by decide,
    prefix_three_iff (by decide) (by decide) (by decide), ← low24_eq_iff]
  rfl

theorem load32_eq_post_iff (s : Bytes) : load32 s 0 = IntPOST ↔ ascii "POST" <+: s := by
  rw [show ascii "POST" = [80, 79, 83, 84] from by decide,
    prefix_four_iff (by decide) (by decide) (by decide) (by decide), ← load32_eq_iff]
  rfl

/-- Exactly three method names are recognised, and nothing is checked about what follows. -/
theorem parseHttpMethod_eq (s : Bytes) :
    parseHttpMethod s 0 0 =
      if ascii "GET" <+: s then (.GET, 3)
      else if ascii "PUT" <+: s then (.PUT, 3)
      else if ascii "POST" <+: s then (.POST, 4)
      else (.UNKNOWN, 0) := by
  simp only [parseHttpMethod, load32_eq_get_iff, load32_eq_put_iff, load32_eq_post_iff]

/-! ## What comes before the version -/

private theorem byteAt_append (pre t : Bytes) (i : Nat) :
    byteAt (pre ++ t) (pre.length + i) = byteAt t i := by
  simp [byteAt, List.getD_eq_getElem?_getD, List.getElem?_append_right]

theorem load32_append (pre t : Bytes) (i : Nat) :
    load32 (pre ++ t) (pre.length + i) = load32 t i := by
  simp only [load32, Nat.add_assoc, byteAt_append]

private theorem cString_append (pre t : Bytes) : cString (pre ++ t) pre.length = cString t 0 := by
  rw [cString, List.drop_left, cString, List.drop_zero]

/-- What comes before the version makes no difference. -/
theorem parseHttpVersion_append (pre t : Bytes) :
    parseHttpVersion (pre ++ t) pre.length = parseHttpVersion t 0 := by
  have hzero := load32_append pre t 0
  have hfive := load32_append pre t 5
  rw [Nat.add_zero] at hzero
  simp only [parseHttpVersion, httpVersion, cString_append, hzero, hfive, Nat.zero_add]

/-! ## Recognised versions -/

theorem load32_eq_http_iff (s : Bytes) : load32 s 0 = IntHTTP ↔ ascii "HTTP" <+: s := by
  rw [show ascii "HTTP" = [72, 84, 84, 80] from by decide,
    prefix_four_iff (by decide) (by decide) (by decide) (by decide), ← load32_eq_iff]
  rfl

theorem load32_eq_ws_iff (s : Bytes) : load32 s 0 = IntWS ↔ ascii "WSS/" <+: s := by
  rw [show ascii "WSS/" = [87, 83, 83, 47] from by decide,
    prefix_four_iff (by decide) (by decide) (by decide) (by decide), ← load32_eq_iff]
  rfl

/-- Three version numbers are recognised, and nothing is checked about what follows. -/
theorem httpVersion_eq (s : Bytes) :
    httpVersion s 0 =
      if ascii "1.0" <+: s then .HTTP_1_0
      else if ascii "1.1" <+: s then .HTTP_1_1
      else if ascii "2.0" <+: s then .HTTP_2_0
      else .UNKNOWN := by
  have h10 : load32 s 0 &&& 0x00ffffff = Int1_0 ↔ ascii "1.0" <+: s := by
    rw [show ascii "1.0" = [49, 46, 48] from by decide,
      prefix_three_iff (by decide) (by decide) (by decide), ← low24_eq_iff]
    rfl
  have h11 : load32 s 0 &&& 0x00ffffff = Int1_1 ↔ ascii "1.1" <+: s := by
    rw [show ascii "1.1" = [49, 46, 49] from by decide,
      prefix_three_iff (by decide) (by decide) (by decide), ← low24_eq_iff]
    rfl
  have h20 : load32 s 0 &&& 0x00ffffff = Int2_0 ↔ ascii "2.0" <+: s := by
    rw [show ascii "2.0" = [50, 46, 48] from by decide,
      prefix_three_iff (by decide) (by decide) (by decide), ← low24_eq_iff]
    rfl
  simp only [httpVersion, h10, h11, h20]

/-- The condition that `ParseHttpVersion` tests says that the text begins with `HTTP/`. -/
theorem http_slash_iff (pre s : Bytes) :
    (load32 (pre ++ s) pre.length = IntHTTP ∧ (cString (pre ++ s) pre.length).length > 4 ∧
      byteAt (cString (pre ++ s) pre.length) 4 = '/'.toUInt8) ↔ ascii "HTTP/" <+: s := by
  have hload := load32_append pre s 0
  rw [Nat.add_zero] at hload
  rw [hload, cString_append, load32_eq_http_iff, cString, List.drop_zero]
  constructor
  · rintro ⟨⟨t, rfl⟩, hlen, hslash⟩
    cases t with
    | nil => exact absurd hlen (by decide)
    | cons c t =>
      -- the fifth character of the C-string is the fifth character of the text
      by_cases hc : c = 0
      · rw [List.takeWhile_append_of_pos (List.all_eq_true.mp rfl),
          List.takeWhile_cons_of_neg (by simp [hc])] at hlen
        exact absurd hlen (by decide)
      · have hfifth : byteAt ((ascii "HTTP" ++ c :: t).takeWhile (· != 0)) 4 = c := by
          rw [List.takeWhile_append_of_pos (List.all_eq_true.mp rfl),
            List.takeWhile_cons_of_pos (by simpa using hc)]
          rfl
        rw [hfifth] at hslash
        exact ⟨t, by rw [hslash]; rfl⟩
  · rintro ⟨t, rfl⟩
    have htext : (ascii "HTTP/" ++ t).takeWhile (· != 0) = ascii "HTTP/" ++ t.takeWhile (· != 0) :=
      List.takeWhile_append_of_pos (List.all_eq_true.mp rfl)
    rw [htext]
    refine ⟨⟨ascii "/" ++ t, rfl⟩, ?_, rfl⟩
    rw [List.length_append]
    exact Nat.lt_of_lt_of_le (by decide) (Nat.le_add_right _ _)

/-- The version at the front of a text. -/
theorem parseHttpVersion_eq (s : Bytes) :
    parseHttpVersion s 0 =
      if ascii "HTTP/" <+: s then httpVersion (s.drop 5) 0
      else if ascii "WSS/" <+: s then .WS
      else .UNKNOWN := by
  have hfive : httpVersion s 5 = httpVersion (s.drop 5) 0 ∨ ¬ ascii "HTTP/" <+: s := by
    by_cases hs : ascii "HTTP/" <+: s
    · obtain ⟨t, rfl⟩ := hs
      have h := load32_append (ascii "HTTP/") t 0
      left
      simp only [httpVersion]
      rw [show (ascii "HTTP/" ++ t).drop 5 = t from rfl, ← h]
      rfl
    · exact .inr hs
  have hslash := http_slash_iff [] s
  rw [List.nil_append, List.length_nil] at hslash
  simp only [parseHttpVersion, hslash, load32_eq_ws_iff, Nat.zero_add]
  rcases hfive with h | h
  · rw [h]
  · rw [if_neg h, if_neg h]

/-! ## The request line as a whole -/

/-- A request line whose method is not recognised has an empty URI and no version. -/
theorem parseFirstLine_unknown {line : Bytes} (h : (parseFirstLine line).1 = .UNKNOWN) :
    parseFirstLine line = (.UNKNOWN, [], .UNKNOWN) := by
  unfold parseFirstLine at h ⊢
  split at h
  rename_i method pos hm
  by_cases hu : method = .UNKNOWN
  · rw [if_pos hu]
  · rw [if_neg hu] at h
    dsimp only at h
    split at h <;> exact absurd h hu

/-- The method of the request line is the one `ParseHttpMethod` finds. -/
theorem parseFirstLine_fst (line : Bytes) :
    (parseFirstLine line).1 = (parseHttpMethod line 0 0).1 := by
  unfold parseFirstLine
  split
  rename_i method pos hm
  simp only [hm]
  split
  · rename_i hu; exact hu.symm
  · split <;> rfl

/-- The method is known when the line begins with one of three names. -/
theorem parseFirstLine_fst_ne_unknown_iff (line : Bytes) :
    (parseFirstLine line).1 ≠ .UNKNOWN ↔
      ascii "GET" <+: line ∨ ascii "PUT" <+: line ∨ ascii "POST" <+: line := by
  rw [parseFirstLine_fst, parseHttpMethod_eq]
  split
  · rename_i h; simp [h]
  split
  · rename_i h; simp [h]
  split
  · rename_i h; simp [h]
  · rename_i hget hput hpost; simp [hget, hput, hpost]

/-- The run of spaces ends where another text begins. -/
theorem takeWhile_blanks {blanks rest : Bytes} (hblanks : ∀ c ∈ blanks, c = SP)
    (hrest : rest.head? ≠ some SP) :
    (blanks ++ rest).takeWhile (fun c => !(c != SP)) = blanks := by
  have hstop : rest.takeWhile (fun c => !(c != SP)) = [] := by
    cases rest with
    | nil => rfl
    | cons c rest =>
      rw [List.takeWhile_cons_of_neg]
      simpa using hrest
  rw [List.takeWhile_append_of_pos (fun c hc => by simp [hblanks c hc]), hstop, List.append_nil]

/-- The loop over the spaces stops where they end. -/
theorem nextCharFrom_blanks {pre blanks rest line : Bytes} (hline : pre ++ (blanks ++ rest) = line)
    (hblanks : ∀ c ∈ blanks, c = SP) (hrest : rest.head? ≠ some SP) :
    nextCharFrom (· != SP) (line.drop pre.length) pre.length = pre.length + blanks.length := by
  rw [nextCharFrom_eq, ← hline, List.drop_left, takeWhile_blanks hblanks hrest]

/-- `find` stops at the first space. -/
theorem findSpace_append {pre uri tail line : Bytes} (hline : pre ++ (uri ++ SP :: tail) = line)
    (huri : SP ∉ uri) : findSpace line pre.length = some (pre.length + uri.length) := by
  have hspace : nextChar line pre.length (· == SP) = pre.length + uri.length := by
    rw [← hline]
    refine nextChar_append pre uri tail (fun c hc => ?_) (by simp)
    have hne : c ≠ SP := fun h => huri (h ▸ hc)
    simpa using hne
  have hlen : pre.length + uri.length < line.length := by
    simp only [← hline, List.length_append, List.length_cons]
    omega
  simp only [findSpace, hspace, hlen, if_true]

theorem findSpace_eq_none {pre uri line : Bytes} (hline : pre ++ uri = line) (huri : SP ∉ uri) :
    findSpace line pre.length = none := by
  have hall : uri.takeWhile (fun c => !(c == SP)) = uri := by
    rw [List.takeWhile_eq_self_iff]
    intro c hc
    have hne : c ≠ SP := fun h => huri (h ▸ hc)
    simpa using hne
  have hspace : nextChar line pre.length (· == SP) = line.length := by
    rw [← hline, nextChar_eq _ _ (by simp), List.drop_left, hall, List.length_append]
  simp only [findSpace, hspace, Nat.lt_irrefl, if_false]

/-- A URI without spaces does not begin with one. -/
theorem head?_ne_space {uri tail : Bytes} (hne : uri ≠ []) (huri : SP ∉ uri) :
    (uri ++ tail).head? ≠ some SP := by
  obtain ⟨u, us, rfl⟩ := List.exists_cons_of_ne_nil hne
  intro h
  obtain rfl : u = SP := by simpa using h
  exact huri List.mem_cons_self

/-- A recognised method, any number of spaces, a URI without spaces, and another space. -/
theorem parseFirstLine_blanks {name blanks uri tail line : Bytes} {method : HttpMethod}
    (hline : name ++ (blanks ++ (uri ++ SP :: tail)) = line)
    (hmethod : parseHttpMethod line 0 0 = (method, name.length)) (hknown : method ≠ .UNKNOWN)
    (hblanks : ∀ c ∈ blanks, c = SP) (hne : uri ≠ []) (huri : SP ∉ uri) :
    parseFirstLine line = (method, uri,
      parseHttpVersion line (name.length + blanks.length + uri.length + 1)) := by
  have hpos := nextCharFrom_blanks hline hblanks (head?_ne_space hne huri)
  have hline' : (name ++ blanks) ++ (uri ++ SP :: tail) = line := by rw [List.append_assoc, hline]
  have hfind := findSpace_append hline' huri
  have hdrop : line.drop (name.length + blanks.length) = uri ++ SP :: tail := by
    rw [← hline', ← List.length_append, List.drop_left]
  rw [List.length_append] at hfind
  unfold parseFirstLine
  simp only [hmethod, hknown, if_false, hpos, hfind, hdrop, Nat.add_sub_cancel_left, List.take_left]

/-- A recognised method, one space, a URI without spaces, and another space. -/
theorem parseFirstLine_known {name uri tail : Bytes} {method : HttpMethod}
    (hmethod : parseHttpMethod (name ++ SP :: (uri ++ SP :: tail)) 0 0 = (method, name.length))
    (hknown : method ≠ .UNKNOWN) (hne : uri ≠ []) (huri : SP ∉ uri) :
    parseFirstLine (name ++ SP :: (uri ++ SP :: tail)) =
      (method, uri, parseHttpVersion (name ++ SP :: (uri ++ SP :: tail))
        (name.length + 1 + uri.length + 1)) := by
  have hline : name ++ ([SP] ++ (uri ++ SP :: tail)) = name ++ SP :: (uri ++ SP :: tail) := rfl
  have hone : ∀ c ∈ [SP], c = SP := by simp
  rw [parseFirstLine_blanks hline hmethod hknown hone hne huri, List.length_singleton]

end Httpoll.Native
