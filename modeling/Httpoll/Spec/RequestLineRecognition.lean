import Httpoll.ForStd.Separated
import Httpoll.Spec.RequestRoundTrip

/-!
# What the request line is taken for

The method and the version are recognised by their first characters. So a method that goes
on after one of three names is taken for that method, and a version that goes on after one of
three texts for that version; and six of the nine methods are not recognised at all.

## Key results

- `parseHttpVersion_eq_iff`: a version is recognised by its beginning
- `RequestLine.parseFirstLine_exact`, `RequestLine.parseFirstLine_longer`,
  `RequestLine.parseFirstLine_other`: the three cases of a request line
- `recognition_iff`: when the method and the version are recognised exactly
-/

namespace Httpoll.Native

open Separated

/-! ## The method -/

/-- The text before the first space. -/
def methodText (line : Bytes) : Bytes := line.takeWhile (· != SP)

/-- The line is parsed to a method exactly when the text before the first space is its name. -/
def MethodExact (line : Bytes) : Prop :=
  ∀ m, m ≠ .UNKNOWN → ((parseFirstLine line).1 = m ↔ methodText line = m.name)

private theorem name_injective {m m' : HttpMethod} (hm : m ≠ .UNKNOWN) (hm' : m' ≠ .UNKNOWN)
    (h : m.name = m'.name) : m = m' := by
  revert h
  cases m <;> cases m' <;> first | exact fun _ => rfl | decide

private theorem name_text (m : HttpMethod) : SP ∉ m.name := by
  cases m <;> decide

/-- A line that begins with the name of a recognised method is parsed to that method. -/
private theorem parseFirstLine_name {m : HttpMethod} (hm : m.Recognised) (rest : Bytes) :
    (parseFirstLine (m.name ++ rest)).1 = m := by
  rw [parseFirstLine_fst, parseHttpMethod_name hm.ne_unknown, if_pos hm]

/-- A line is parsed to a method when it begins with the name of a recognised one. -/
private theorem parseFirstLine_ne_unknown_iff (line : Bytes) :
    (parseFirstLine line).1 ≠ .UNKNOWN ↔ ∃ m : HttpMethod, m.Recognised ∧ m.name <+: line := by
  rw [parseFirstLine_fst_ne_unknown_iff]
  constructor
  · rintro (h | h | h)
    · exact ⟨.GET, by decide, h⟩
    · exact ⟨.PUT, by decide, h⟩
    · exact ⟨.POST, by decide, h⟩
  · rintro ⟨m, rfl | rfl | rfl, h⟩
    · exact .inl h
    · exact .inr (.inl h)
    · exact .inr (.inr h)

/-- The method of a line is exact when the text before the first space is one of the three
    recognised names, or is no method name and does not begin with one of the three. -/
theorem methodExact_iff (line : Bytes) :
    MethodExact line ↔
      (∃ m : HttpMethod, m.Recognised ∧ methodText line = m.name) ∨
        ((∀ m : HttpMethod, m ≠ .UNKNOWN → methodText line ≠ m.name) ∧
          ∀ m : HttpMethod, m.Recognised → ¬ m.name <+: line) := by
  constructor
  · intro hexact
    -- the code compares a prefix, so a known method is found as soon as the line begins with it
    by_cases hknown : (parseFirstLine line).1 = .UNKNOWN
    · refine .inr ⟨fun m hm htext => ?_, fun m hm hbegins => ?_⟩
      · exact hm ((((hexact m hm).mpr htext).symm).trans hknown)
      · exact (parseFirstLine_ne_unknown_iff line).mpr ⟨m, hm, hbegins⟩ hknown
    · obtain ⟨m, hm, rest, rfl⟩ := (parseFirstLine_ne_unknown_iff line).mp hknown
      exact .inl ⟨m, hm, (hexact m hm.ne_unknown).mp (parseFirstLine_name hm rest)⟩
  · rintro (⟨m, hm, htext⟩ | ⟨hnone, hbegins⟩) m' hm'
    -- the line is the name of the method, and what comes behind the first word
    · have hline : line = m.name ++ line.dropWhile (· != SP) := by
        rw [← htext, methodText, List.takeWhile_append_dropWhile]
      rw [htext]
      conv_lhs => rw [hline, parseFirstLine_name hm]
      exact ⟨fun h => h ▸ rfl, name_injective hm.ne_unknown hm'⟩
    · have hknown : (parseFirstLine line).1 = .UNKNOWN := by
        by_contra h
        obtain ⟨m, hm, hpre⟩ := (parseFirstLine_ne_unknown_iff line).mp h
        exact hbegins m hm hpre
      rw [hknown]
      exact ⟨fun h => absurd h.symm hm', fun h => absurd h (hnone m' hm')⟩

/-! ## The version -/

private theorem versionText_text {v : HttpVersion} (hv : v.Recognised) :
    SP ∉ httpVersionToString v ∧ CR ∉ httpVersionToString v := by
  rcases hv with rfl | rfl | rfl <;> decide

/-- The number of a version. -/
private theorem httpVersion_eq_iff {v : HttpVersion} (hv : v.Recognised) (t : Bytes) :
    httpVersion t 0 = v ↔ (httpVersionToString v).drop 5 <+: t := by
  -- two numbers of one length are not both at the front
  have hsame : ∀ {n n' : Bytes}, n.length = n'.length → n <+: t → n' <+: t → n = n' :=
    fun hlen h h' => (List.prefix_of_prefix_length_le h h' hlen.le).eq_of_length hlen
  rw [httpVersion_eq]
  rcases hv with rfl | rfl | rfl
  · rw [show (httpVersionToString .HTTP_1_0).drop 5 = ascii "1.0" from by decide]
    split_ifs with h10
    · exact iff_of_true rfl h10
    all_goals exact iff_of_false (by decide) h10
  · rw [show (httpVersionToString .HTTP_1_1).drop 5 = ascii "1.1" from by decide]
    split_ifs with h10 h11
    · exact iff_of_false (by decide) fun h => absurd (hsame (by rfl) h10 h) (by decide)
    · exact iff_of_true rfl h11
    all_goals exact iff_of_false (by decide) h11
  · rw [show (httpVersionToString .HTTP_2_0).drop 5 = ascii "2.0" from by decide]
    split_ifs with h10 h11 h20
    · exact iff_of_false (by decide) fun h => absurd (hsame (by rfl) h10 h) (by decide)
    · exact iff_of_false (by decide) fun h => absurd (hsame (by rfl) h11 h) (by decide)
    · exact iff_of_true rfl h20
    · exact iff_of_false (by decide) h20

/-- A version is recognised by its beginning. -/
theorem parseHttpVersion_eq_iff {v : HttpVersion} (hv : v.Recognised) (s : Bytes) :
    parseHttpVersion s 0 = v ↔ httpVersionToString v <+: s := by
  have hhttp : ascii "HTTP/" ++ (httpVersionToString v).drop 5 = httpVersionToString v := by
    rcases hv with rfl | rfl | rfl <;> decide
  rw [parseHttpVersion_eq]
  by_cases hs : ascii "HTTP/" <+: s
  · obtain ⟨t, rfl⟩ := hs
    rw [if_pos (List.prefix_append _ _), show (ascii "HTTP/" ++ t).drop 5 = t from rfl,
      httpVersion_eq_iff hv, ← List.prefix_append_right_inj (ascii "HTTP/"), hhttp]
  · rw [if_neg hs]
    refine iff_of_false ?_ fun h => hs ((List.prefix_append _ _).trans (hhttp.symm ▸ h))
    rcases hv with rfl | rfl | rfl <;> split <;> decide

/-! ## Request lines -/

/-- A line `METHOD URI VERSION` CRLF, with whatever in the place of the method and of the
    version. -/
structure RequestLine where
  method : Bytes
  uri : Bytes
  version : Bytes
  method_text : SP ∉ method
  uri_ne_nil : uri ≠ []
  uri_text : SP ∉ uri

namespace RequestLine

variable (r : RequestLine)

def line : Bytes := r.method ++ SP :: (r.uri ++ SP :: (r.version ++ crlf))

/-- The line is parsed to a version exactly when it has the text of that version. -/
def VersionExact : Prop :=
  ∀ v : HttpVersion, v.Recognised →
    ((parseFirstLine r.line).2.2 = v ↔ r.version = httpVersionToString v)

/-- The line of a recognised method: the version is looked for behind the URI. -/
theorem parseFirstLine_exact {m : HttpMethod} (hm : m.Recognised) (hmethod : r.method = m.name) :
    parseFirstLine r.line = (m, r.uri, parseHttpVersion (r.version ++ crlf) 0) := by
  have hname := parseHttpMethod_name hm.ne_unknown (SP :: (r.uri ++ SP :: (r.version ++ crlf)))
  rw [if_pos hm] at hname
  rw [line, hmethod, parseFirstLine_known hname hm.ne_unknown r.uri_ne_nil r.uri_text]
  have hline : m.name ++ SP :: (r.uri ++ SP :: (r.version ++ crlf)) =
      (m.name ++ SP :: (r.uri ++ [SP])) ++ (r.version ++ crlf) := by simp
  have hlen : m.name.length + 1 + r.uri.length + 1 =
      (m.name ++ SP :: (r.uri ++ [SP])).length := by
    simp only [List.length_append, List.length_cons, List.length_nil]
    omega
  rw [hline, hlen, parseHttpVersion_append]

/-- The line of a method that goes on after a recognised name: what it goes on with is taken for
    the URI, and the version is looked for in the URI. -/
theorem parseFirstLine_longer {m : HttpMethod} (hm : m.Recognised) {more : Bytes}
    (hmore : more ≠ []) (hmethod : r.method = m.name ++ more) :
    parseFirstLine r.line =
      (m, more, parseHttpVersion (r.uri ++ SP :: (r.version ++ crlf)) 0) := by
  have htext : SP ∉ more := fun h => r.method_text (hmethod ▸ List.mem_append_right _ h)
  generalize htail : r.uri ++ SP :: (r.version ++ crlf) = tail
  have hline : m.name ++ ([] ++ (more ++ SP :: tail)) = r.line := by
    rw [line, hmethod, htail, List.nil_append, List.append_assoc]
  -- the method is recognised by its first letters, and the others are taken for the URI
  have hname := parseHttpMethod_name hm.ne_unknown ([] ++ (more ++ SP :: tail))
  rw [if_pos hm, hline] at hname
  rw [parseFirstLine_blanks hline hname hm.ne_unknown (by simp) hmore htext]
  have hline' : r.line = (m.name ++ (more ++ [SP])) ++ tail := by rw [← hline]; simp
  have hlen : m.name.length + ([] : Bytes).length + more.length + 1 =
      (m.name ++ (more ++ [SP])).length := by
    simp only [List.length_append, List.length_cons, List.length_nil]
    omega
  rw [hline', hlen, parseHttpVersion_append]

/-- Any other line. -/
theorem parseFirstLine_other (hmethod : ∀ m : HttpMethod, m.Recognised → ¬ m.name <+: r.method) :
    parseFirstLine r.line = (.UNKNOWN, [], .UNKNOWN) := by
  refine parseFirstLine_unknown ?_
  by_contra hknown
  obtain ⟨m, hm, hbegins⟩ := (parseFirstLine_ne_unknown_iff r.line).mp hknown
  exact hmethod m hm ((prefix_append_cons_iff (name_text m)).mp hbegins)

/-- The three cases of a line. -/
theorem method_cases :
    (∃ m : HttpMethod, m.Recognised ∧ r.method = m.name) ∨
      (∃ (m : HttpMethod) (more : Bytes), m.Recognised ∧ more ≠ [] ∧ r.method = m.name ++ more) ∨
        ∀ m : HttpMethod, m.Recognised → ¬ m.name <+: r.method := by
  by_cases h : ∃ m : HttpMethod, m.Recognised ∧ m.name <+: r.method
  · obtain ⟨m, hm, more, hmore⟩ := h
    rcases List.eq_nil_or_concat more with rfl | ⟨init, c, rfl⟩
    · exact .inl ⟨m, hm, by rw [← hmore, List.append_nil]⟩
    · exact .inr (.inl ⟨m, _, hm, by simp, hmore.symm⟩)
  · exact .inr (.inr fun m hm hbegins => h ⟨m, hm, hbegins⟩)

/-- What the version of a line must be for it to be recognised exactly: for a recognised method
    the version does not go on after one of the three texts; for a method that goes on after a
    recognised name the URI begins with the text of a version exactly when the version is that
    text; and for any other method the version is none of the three texts. -/
structure VersionFits : Prop where
  exact : (∃ m : HttpMethod, m.Recognised ∧ r.method = m.name) →
    ∀ v : HttpVersion, v.Recognised → httpVersionToString v <+: r.version →
      r.version = httpVersionToString v
  longer : (∃ (m : HttpMethod) (more : Bytes),
      m.Recognised ∧ more ≠ [] ∧ r.method = m.name ++ more) →
    ∀ v : HttpVersion, v.Recognised →
      (httpVersionToString v <+: r.uri ↔ r.version = httpVersionToString v)
  other : (∀ m : HttpMethod, m.Recognised → ¬ m.name <+: r.method) →
    ∀ v : HttpVersion, v.Recognised → r.version ≠ httpVersionToString v

theorem versionExact_iff : r.VersionExact ↔ r.VersionFits := by
  constructor
  · intro h
    constructor
    · rintro ⟨m, hm, hmethod⟩ v hv hbegins
      refine (h v hv).mp ?_
      rw [r.parseFirstLine_exact hm hmethod]
      -- the code finds the version when the text begins with it
      exact (parseHttpVersion_eq_iff hv _).mpr
        ((prefix_append_cons_iff (versionText_text hv).2).mpr hbegins)
    · rintro ⟨m, more, hm, hmore, hmethod⟩ v hv
      rw [← h v hv, r.parseFirstLine_longer hm hmore hmethod]
      exact ((parseHttpVersion_eq_iff hv _).trans
        (prefix_append_cons_iff (versionText_text hv).1)).symm
    -- without a known method no version is looked for
    · intro hmethod v hv hversion
      have hunknown := (h v hv).mpr hversion
      rw [r.parseFirstLine_other hmethod] at hunknown
      rcases hv with rfl | rfl | rfl <;> cases hunknown
  · intro h v hv
    rcases r.method_cases with ⟨m, hm, hmethod⟩ | ⟨m, more, hm, hmore, hmethod⟩ | hmethod
    · rw [r.parseFirstLine_exact hm hmethod]
      refine ((parseHttpVersion_eq_iff hv _).trans
        (prefix_append_cons_iff (versionText_text hv).2)).trans ⟨h.exact ⟨m, hm, hmethod⟩ v hv, ?_⟩
      exact fun heq => heq ▸ List.prefix_refl _
    · rw [r.parseFirstLine_longer hm hmore hmethod]
      exact ((parseHttpVersion_eq_iff hv _).trans
        (prefix_append_cons_iff (versionText_text hv).1)).trans
        (h.longer ⟨m, more, hm, hmore, hmethod⟩ v hv)
    · rw [r.parseFirstLine_other hmethod]
      refine iff_of_false (fun hunknown => ?_) (h.other hmethod v hv)
      rcases hv with rfl | rfl | rfl <;> cases hunknown

end RequestLine

/-- **Exact recognition of the request line.** The method is recognised exactly if and only if
    the text before the first space is GET, PUT or POST, or is no method name and does not begin
    with one of these three. The version is recognised exactly if and only if it fits the
    method. -/
theorem recognition_iff (line : Bytes) (r : RequestLine) :
    (MethodExact line ↔
      (∃ m : HttpMethod, m.Recognised ∧ methodText line = m.name) ∨
        ((∀ m : HttpMethod, m ≠ .UNKNOWN → methodText line ≠ m.name) ∧
          ∀ m : HttpMethod, m.Recognised → ¬ m.name <+: line)) ∧
      (r.VersionExact ↔ r.VersionFits) :=
  ⟨methodExact_iff line, r.versionExact_iff⟩

/-- A method that is not recognised, a method that goes on after GET, and a version that goes on
    after HTTP/1.1. -/
theorem recognition_inexact :
    methodText (ascii "DELETE / HTTP/1.1\r\n") = HttpMethod.DELETE.name ∧
      parseFirstLine (ascii "DELETE / HTTP/1.1\r\n") = (.UNKNOWN, [], .UNKNOWN) ∧
      parseFirstLine (ascii "GETX / HTTP/1.1\r\n") = (.GET, ascii "X", .UNKNOWN) ∧
      (∀ m, m ≠ .UNKNOWN → methodText (ascii "GETX / HTTP/1.1\r\n") ≠ HttpMethod.name m) ∧
      parseFirstLine (ascii "GET / HTTP/1.1x\r\n") = (.GET, ascii "/", .HTTP_1_1) := by
  refine ⟨by decide, by decide, by decide, fun m => ?_, by decide⟩
  cases m <;> decide

end Httpoll.Native
