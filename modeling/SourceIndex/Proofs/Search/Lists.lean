import Mathlib
import SourceIndex.Proofs.Search.Fusion
import SourceIndex.Store.Search

/-! # The rankings of a store

A ranking of a store lists the chunks it can find, each once, and is cut to its limit last
(`Ranked.Lists`). By vectors it can find the chunks that have one (`Store.lists_vectorSearch`), by
words those that have a term of the query (`Store.lists_keywordSearch`), and in both cases only
those that pass the filter.
-/

set_option autoImplicit false

namespace SourceIndex

/-! ## Rankings of chunks -/

/-- The entries rank the chunks `cs` and are cut to the limit. -/
def Ranked.Lists (limit : Nat) (cs : List Chunk) (entries : List (Ranked Float)) : Prop :=
  ∃ all : List (Ranked Float), entries = all.take limit ∧
    (all.map Ranked.id).Perm (cs.map Chunk.id)

namespace Ranked.Lists

variable {limit : Nat} {cs : List Chunk} {entries : List (Ranked Float)}

theorem length_eq (h : Lists limit cs entries) : entries.length = min limit cs.length := by
  obtain ⟨all, rfl, hperm⟩ := h
  have hlength := hperm.length_eq
  rw [List.length_map, List.length_map] at hlength
  rw [List.length_take, hlength]

theorem nodup (h : Lists limit cs entries) (hids : (cs.map Chunk.id).Nodup) :
    (entries.map Ranked.id).Nodup := by
  obtain ⟨all, rfl, hperm⟩ := h
  rw [List.map_take]
  exact (hperm.nodup_iff.mpr hids).sublist (List.take_sublist _ _)

theorem exists_chunk (h : Lists limit cs entries) {id : String}
    (hid : id ∈ entries.map Ranked.id) : ∃ c ∈ cs, c.id = id := by
  obtain ⟨all, rfl, hperm⟩ := h
  rw [List.map_take] at hid
  exact List.mem_map.mp (hperm.mem_iff.mp (List.mem_of_mem_take hid))

end Ranked.Lists

/-- Sorting and cutting entries for chunks ranks the chunks. -/
theorem Ranked.lists_ranking (limit : Nat) {cs : List Chunk} {entries : List (Ranked Float)}
    (h : entries.map Ranked.id = cs.map Chunk.id) :
    Lists limit cs ((ranking entries).take limit) :=
  ⟨ranking entries, rfl, h ▸ (List.mergeSort_perm _ _).map Ranked.id⟩

/-! ## What can be found -/

namespace Store

/-- The chunks that pass a filter and have a vector. -/
def embedded (s : Store) (language : Option String) : List Chunk :=
  s.chunks.filter fun c => passes language c && c.embedding.isSome

/-- The chunks that pass a filter and have a term of a query. -/
def matching (s : Store) (query : String) (language : Option String) : List Chunk :=
  s.chunks.filter fun c => passes language c && (document c).hasAny (Keyword.phrases query)

variable (s : Store) (language : Option String)

theorem nodup_embedded (h : (s.chunks.map Chunk.id).Nodup) :
    ((s.embedded language).map Chunk.id).Nodup :=
  h.sublist (List.filter_sublist.map Chunk.id)

theorem nodup_matching (h : (s.chunks.map Chunk.id).Nodup) (query : String) :
    ((s.matching query language).map Chunk.id).Nodup :=
  h.sublist (List.filter_sublist.map Chunk.id)

/-- Where no vector is shorter than that of the query, none is passed over. -/
theorem lists_vectorSearch {query : Embedding}
    (hlong : ∀ c ∈ s.chunks, ∀ v, c.embedding = some v → query.length ≤ v.length) (limit : Nat) :
    Ranked.Lists limit (s.embedded language) (s.vectorSearch query language limit) := by
  refine Ranked.lists_ranking limit ?_
  unfold embedded
  generalize s.chunks = cs at hlong ⊢
  induction cs with
  | nil => rfl
  | cons c cs ih =>
    have hrest := ih fun d hd => hlong d (List.mem_cons_of_mem c hd)
    cases hpass : passes language c with
    | false => simpa [hpass] using hrest
    | true =>
      cases hv : c.embedding with
      | none => simpa [hpass, similarity?, hv] using hrest
      | some v =>
        have hle : ¬ v.length < query.length := Nat.not_lt.mpr (hlong c List.mem_cons_self v hv)
        simpa [hpass, similarity?, hv, hle] using hrest

theorem passesDocument_document (c : Chunk) :
    passesDocument language (document c) = passes language c := by
  cases language <;> rfl

theorem lists_keywordSearch (query : String) (limit : Nat) :
    Ranked.Lists limit (s.matching query language) (s.keywordSearch query language limit) := by
  refine Ranked.lists_ranking limit ?_
  unfold matching Keyword.scored
  simp only [List.filter_map, List.map_map, List.filter_filter]
  -- the documents that pass are those of the chunks that pass
  refine congrArg (List.map Chunk.id) (List.filter_congr fun c _ => ?_)
  show (passesDocument language (document c) && (document c).hasAny (Keyword.phrases query)) = _
  rw [passesDocument_document]

/-- A query without terms finds nothing. -/
theorem keywordSearch_eq_nil {query : String} (h : Keyword.hasTerms query = false) (limit : Nat) :
    s.keywordSearch query language limit = [] := by
  have hterms : Keyword.terms query = [] := by simpa [Keyword.hasTerms] using h
  have hnone : s.matching query language = [] := by
    simp [matching, Keyword.phrases, hterms, Keyword.Document.hasAny]
  have hlength := (s.lists_keywordSearch language query limit).length_eq
  rw [hnone] at hlength
  exact List.eq_nil_of_length_eq_zero (by simpa using hlength)

/-- Ids tell the chunks of a store apart. -/
theorem chunk?_of_mem {s : Store} (hids : (s.chunks.map Chunk.id).Nodup) {c : Chunk}
    (hc : c ∈ s.chunks) : s.chunk? c.id = some c := by
  unfold chunk?
  cases hfind : s.chunks.find? fun d => d.id = c.id with
  | none => exact absurd hfind (by simpa using ⟨c, hc, rfl⟩)
  | some d =>
    have hid : d.id = c.id := by simpa using List.find?_some hfind
    exact congrArg some (List.inj_on_of_nodup_map hids (List.mem_of_find?_eq_some hfind) hc hid)

end Store

end SourceIndex
