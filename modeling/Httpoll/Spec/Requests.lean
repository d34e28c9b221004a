import Httpoll.Spec.ContentLength

/-!
# Requests without a body

A request as a client spells it, and what the parser makes of its lines. The parser knows
the methods GET, PUT and POST; it takes the request line of any other method for one
without a URI.

## Key results

- `parseHttpMethod_name`: which method names are recognised
- `Request.parse_spec`: the method, the URI and the state that a request leaves in the parser
-/

namespace Httpoll.Native

open HttpHeaderParser

/-- The name of a method. -/
def HttpMethod.name : HttpMethod → Bytes
  | GET => ascii "GET" | POST => ascii "POST" | PUT => ascii "PUT"
  | DELETE => ascii "DELETE" | HEAD => ascii "HEAD" | CONNECT => ascii "CONNECT"
  | OPTIONS => ascii "OPTIONS" | TRACE => ascii "TRACE" | PATCH => ascii "PATCH"
  | UNKNOWN => []

/-- A method that the parser knows. -/
def HttpMethod.Recognised (m : HttpMethod) : Prop := m = .GET ∨ m = .PUT ∨ m = .POST

instance : DecidablePred HttpMethod.Recognised := fun m =>
  inferInstanceAs (Decidable (m = .GET ∨ m = .PUT ∨ m = .POST))

theorem HttpMethod.Recognised.ne_unknown {m : HttpMethod} (h : m.Recognised) : m ≠ .UNKNOWN := by
  rcases h with rfl | rfl | rfl <;> decide

theorem HttpMethod.Recognised.length_name {m : HttpMethod} (h : m.Recognised) :
    3 ≤ m.name.length := by
  rcases h with rfl | rfl | rfl <;> decide

/-- Of the nine method names three are recognised. -/
theorem parseHttpMethod_name {m : HttpMethod} (hm : m ≠ .UNKNOWN) (rest : Bytes) :
    parseHttpMethod (m.name ++ rest) 0 0 =
      if m.Recognised then (m, m.name.length) else (.UNKNOWN, 0) := by
  rw [parseHttpMethod_eq]
  cases m <;>
    simp [HttpMethod.name, HttpMethod.Recognised, ascii, Char.toUInt8, List.cons_prefix_cons] at *

/-- A request without a body: a request line, and header lines of which none declares a
    content length. -/
structure Request where
  method : HttpMethod
  uri : Bytes
  version : Bytes
  headers : List Bytes
  method_known : method ≠ .UNKNOWN
  uri_ne_nil : uri ≠ []
  uri_text : SP ∉ uri ∧ CR ∉ uri
  version_text : CR ∉ version
  header_lines : ∀ l ∈ headers, Lines.IsLine CR LF l ∧ l ≠ crlf ∧ 0 ∉ l
  no_body : ∀ l ∈ headers, ¬ Named kContentLength l
  deriving DecidableEq

namespace Request

/-- `METHOD URI VERSION` CRLF -/
def firstLine (r : Request) : Bytes :=
  r.method.name ++ SP :: (r.uri ++ SP :: (r.version ++ crlf))

def lines (r : Request) : List Bytes := r.firstLine :: r.headers ++ [crlf]

def bytes (r : Request) : Bytes := r.lines.flatten

/-- What a handler is to be called with. -/
def key (r : Request) : HttpMethod × Bytes := (r.method, r.uri)

/-- What `PushLine` makes of the request; `none` when it hangs on a line. -/
def parse (r : Request) : Option HttpHeaderParser := r.lines.foldlM pushLine {}

theorem isLine_firstLine (r : Request) : Lines.IsLine CR LF r.firstLine := by
  have hname : CR ∉ r.method.name := by
    cases r.method <;> decide
  have heq : r.firstLine = (r.method.name ++ SP :: (r.uri ++ SP :: r.version)) ++ [CR, LF] := by
    simp [firstLine, crlf]
  rw [heq]
  apply Lines.IsLine.of_not_mem
  simp only [List.mem_append, List.mem_cons, not_or]
  exact ⟨hname, by decide, r.uri_text.2, by decide, r.version_text⟩

theorem isLine_of_mem (r : Request) {l : Bytes} (hl : l ∈ r.lines) : Lines.IsLine CR LF l := by
  rcases List.mem_append.mp hl with hl | hl
  · rcases List.mem_cons.mp hl with rfl | hl
    · exact r.isLine_firstLine
    · exact (r.header_lines l hl).1
  · rw [List.mem_singleton.mp hl]
    decide

/-- The request line is parsed when its method is recognised, else nothing of it is kept. -/
theorem parseFirstLine_firstLine (r : Request) :
    (parseFirstLine r.firstLine).1 = (if r.method.Recognised then r.method else .UNKNOWN) ∧
      (r.method.Recognised → (parseFirstLine r.firstLine).2.1 = r.uri) := by
  have hmethod := parseHttpMethod_name r.method_known (SP :: (r.uri ++ SP :: (r.version ++ crlf)))
  by_cases hrec : r.method.Recognised
  · rw [if_pos hrec] at hmethod ⊢
    rw [firstLine, parseFirstLine_known hmethod r.method_known r.uri_ne_nil r.uri_text.1]
    exact ⟨rfl, fun _ => rfl⟩
  · rw [if_neg hrec] at hmethod ⊢
    refine ⟨?_, fun h => absurd h hrec⟩
    rw [parseFirstLine_fst, firstLine, hmethod]

/-- The parser after a request. -/
theorem parse_spec {r : Request} {q : HttpHeaderParser} (h : r.parse = some q) :
    q.state = .Done ∧ (q.method, q.uri) =
      ((parseFirstLine r.firstLine).1, (parseFirstLine r.firstLine).2.1) := by
  unfold parse lines at h
  obtain ⟨p, hp, -, rfl⟩ := exists_of_foldlM_block (fun l hl => (r.header_lines l hl).2.1) rfl h
  obtain ⟨-, hlength, -, hmethod, huri⟩ := foldlM_headers_keep r.header_lines r.no_body rfl hp
  refine ⟨?_, ?_⟩
  · rw [pushBlank, hlength]
    rfl
  · rw [show p.pushBlank.method = p.method from rfl, show p.pushBlank.uri = p.uri from rfl,
      hmethod, huri]
    rfl

end Request

end Httpoll.Native
