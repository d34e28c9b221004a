import Httpoll.Native.RequestLine

/-!
# `MakeResponse`

The embedding of `hpl_response.h`. The `{}` of fmt writes a string as it is, and an integer in
decimal.

## Key results

- `decimalValue_decimal`: a number that is written in decimal reads back
-/

namespace Httpoll.Native

/-! ## Formatting -/

/-- A number in decimal. -/
def decimal (n : Nat) : Bytes := (Nat.toDigits 10 n).map Char.toUInt8

/-- An `int` in decimal. -/
def formatInt : Int → Bytes
  | .ofNat n => decimal n
  | .negSucc n => '-'.toUInt8 :: decimal (n + 1)

/-- The byte of a decimal digit. -/
private theorem toNat_toUInt8 {c : Char} (h : c.isDigit = true) :
    c.toUInt8.toNat = c.toNat ∧ 48 ≤ c.toNat ∧ c.toNat ≤ 57 := by
  have hc : 48 ≤ c.toNat ∧ c.toNat ≤ 57 := by
    simpa [Char.isDigit, UInt32.le_iff_toNat_le] using h
  refine ⟨?_, hc⟩
  show c.toNat % 256 = c.toNat
  omega

theorem isDigit_of_mem_decimal {n : Nat} {b : UInt8} (h : b ∈ decimal n) : isDigit b = true := by
  obtain ⟨c, hc, rfl⟩ := List.mem_map.mp h
  obtain ⟨hbyte, hle, hge⟩ :=
    toNat_toUInt8 (Nat.isDigit_of_mem_toDigits (by decide) (by decide) hc)
  simp only [isDigit, Bool.and_eq_true, decide_eq_true_eq, UInt8.le_iff_toNat_le, hbyte]
  exact ⟨hle, hge⟩

theorem not_mem_formatInt {b : UInt8} (hdigit : isDigit b = false) (hminus : b ≠ '-'.toUInt8)
    (i : Int) : b ∉ formatInt i := by
  have hdecimal : ∀ n, b ∉ decimal n := by
    intro n hb
    rw [isDigit_of_mem_decimal hb] at hdigit
    cases hdigit
  cases i with
  | ofNat n => exact hdecimal n
  | negSucc n =>
    rw [formatInt, List.mem_cons, not_or]
    exact ⟨hminus, hdecimal (n + 1)⟩

/-- **A number in decimal reads back.** -/
theorem decimalValue_decimal (n : Nat) : decimalValue (decimal n) = n := by
  have hfold : ∀ (cs : List Char) (acc : Nat), (∀ c ∈ cs, c.isDigit = true) →
      (cs.map Char.toUInt8).foldl (fun acc c => acc * 10 + (c.toNat - 48)) acc =
        Nat.ofDigitChars 10 cs acc := by
    intro cs
    induction cs with
    | nil => exact fun acc _ => Nat.ofDigitChars_nil.symm
    | cons c cs ih =>
      intro acc hcs
      rw [List.map_cons, List.foldl_cons, Nat.ofDigitChars_cons,
        (toNat_toUInt8 (hcs c List.mem_cons_self)).1, Nat.mul_comm acc 10]
      exact ih _ fun c hc => hcs c (List.mem_cons_of_mem _ hc)
  rw [decimalValue, decimal, hfold _ _ fun c hc =>
    Nat.isDigit_of_mem_toDigits (by decide) (by decide) hc]
  exact Nat.ofDigitChars_ten_toDigits

/-! ## `MakeResponse` -/

/-- `kStatusMessages`: the messages of the codes from 100, 200, 300, 400 and 500 on. -/
def kStatusMessages : List (List String) :=
  [["Continue", "Switching Protocols", "Processing", "Early Hints"],
    ["OK", "Created", "Accepted", "Non-Authoritative Information", "No Content",
      "Reset Content", "Partial Content", "Multi-Status", "Already Reported"],
    ["Multiple Choices", "Moved Permanently", "Found", "See Other", "Not Modified",
      "Use Proxy", "(Unused)", "Temporary Redirect", "Permanent Redirect"],
    ["Bad Request", "Unauthorized", "Payment Required", "Forbidden", "Not Found",
      "Method Not Allowed", "Not Acceptable", "Proxy Authentication Required",
      "Request Timeout", "Conflict", "Gone", "Length Required", "Precondition Failed"],
    ["Internal Server Error", "Not Implemented", "Bad Gateway", "Service Unavailable",
      "Gateway Timeout", "HTTP Version Not Supported", "Variant Also Neogtiates",
      "Insufficient Storage", "Loop Detected", "(Unused)", "Not Extended",
      "Network Authentication Required"]]

/-- `std::vector::at`, for an `int`; `none` when it throws. -/
def vectorAt {α : Type _} (xs : List α) (i : Int) : Option α :=
  if i < 0 then none else xs[i.toNat]?

/-- `std::map<std::string_view, std::string_view>`: the entries, in the byte order of their
    keys. -/
structure ResponseHeaders where
  entries : List (Bytes × Bytes)
  sorted : (entries.map Prod.fst).Pairwise (· < ·)

/-- `{}` -/
def ResponseHeaders.empty : ResponseHeaders := ⟨[], by simp⟩

/-- `MakeResponse`; `none` when `at` throws. -/
def makeResponse (statusCode : Int) (version : HttpVersion) (headers : ResponseHeaders)
    (body : Bytes) : Option Bytes := do
  let statusCode := if statusCode < 100 ∨ statusCode > 599 then 500 else statusCode
  let messages ← vectorAt kStatusMessages (statusCode.tdiv 100 - 1)
  let statusCode := if messages.length ≤ statusCode.tmod 100 then 500 else statusCode
  let messages ← vectorAt kStatusMessages (statusCode.tdiv 100 - 1)
  let message ← vectorAt messages (statusCode.tmod 100)
  let ret := httpVersionToString version ++ [SP] ++ formatInt statusCode ++ [SP] ++
    ascii message ++ crlf
  let ret := headers.entries.foldl (fun ret e => ret ++ (e.1 ++ ascii ": " ++ e.2 ++ crlf)) ret
  if body ≠ [] then
    return ret ++ (ascii "Content-Length: " ++ decimal body.length ++ crlf ++ crlf) ++ body
  else
    return ret ++ crlf

end Httpoll.Native
