import Httpoll.Spec.WildcardRouting
import Mathlib.Data.List.Sort

/-! # The order of registrations

Handlers are registered one after the other, and the table keeps them sorted by their keys. Of
the order of the registrations nothing is left but which one came last under each pattern. -/

namespace Httpoll.Native

variable {σ : Type}

namespace HandlerTable

/-- The entries of a table, by their keys. -/
theorem mem_entries_iff {t : HandlerTable σ} {e : Bytes × RequestHandler σ} :
    e ∈ t.entries ↔ t.entries.lookup e.1 = some e.2 := by
  constructor
  · exact lookup_of_mem
  · intro h
    obtain ⟨before, after, hsplit, -⟩ := List.lookup_eq_some_iff.mp h
    rw [hsplit]
    exact List.mem_append_right before List.mem_cons_self

/-- A table is what it has under every key. -/
theorem ext_lookup {t t' : HandlerTable σ}
    (h : ∀ key, t.entries.lookup key = t'.entries.lookup key) : t = t' := by
  have hmem : ∀ e, e ∈ t.entries ↔ e ∈ t'.entries := by
    intro e
    rw [mem_entries_iff, mem_entries_iff, h]
  have hsorted := List.pairwise_map.mp t.sorted
  have hsorted' := List.pairwise_map.mp t'.sorted
  have : Std.Irrefl fun e e' : Bytes × RequestHandler σ => e.1 < e'.1 :=
    ⟨fun e => List.lt_irrefl e.1⟩
  -- two strictly sorted lists with the same elements are the same list
  have hentries := hsorted.eq_of_mem_iff hsorted' hmem
  cases t
  cases t'
  cases hentries
  rfl

end HandlerTable

namespace Server

/-- What is under a pattern's key is what was registered last under the pattern. -/
private theorem lookup_insertDots_iff {registers : List (Bytes × RequestHandler σ)} {p : Bytes}
    {handler : RequestHandler σ} :
    (registerRequestHandlers .empty registers).entries.lookup (insertDots p) = some handler ↔
      LastUnder registers p handler := by
  rw [lookup_registerRequestHandlers, lastUnder_iff]
  simp [HandlerTable.empty]

/-- Every key is the key of a pattern. -/
private theorem exists_lookup_iff {registers : List (Bytes × RequestHandler σ)} {key : Bytes}
    {handler : RequestHandler σ} :
    (registerRequestHandlers .empty registers).entries.lookup key = some handler ↔
      ∃ p, key = insertDots p ∧ LastUnder registers p handler := by
  constructor
  · intro h
    -- a key comes from a registration, since the table was empty
    rcases mem_registerRequestHandlers
      (HandlerTable.mem_entries_iff (e := (key, handler)).mpr h) with ⟨e, -, heq⟩ | hmem
    · obtain ⟨rfl, rfl⟩ := Prod.mk.inj heq
      exact ⟨e.1, rfl, lookup_insertDots_iff.mp h⟩
    · exact absurd hmem List.not_mem_nil
  · rintro ⟨p, rfl, h⟩
    exact lookup_insertDots_iff.mpr h

/-- **The order of registrations.** Two series of registrations leave the same table exactly
    when every pattern has the same last registration in both. -/
theorem registerRequestHandlers_eq_iff (registers registers' : List (Bytes × RequestHandler σ)) :
    registerRequestHandlers .empty registers = registerRequestHandlers .empty registers' ↔
      ∀ pattern handler,
        LastUnder registers pattern handler ↔ LastUnder registers' pattern handler := by
  constructor
  · intro h pattern handler
    rw [← lookup_insertDots_iff, ← lookup_insertDots_iff, h]
  · intro h
    refine HandlerTable.ext_lookup fun key => Option.ext fun handler => ?_
    rw [exists_lookup_iff, exists_lookup_iff]
    exact exists_congr fun p => and_congr_right fun _ => h p handler

end Server

end Httpoll.Native
