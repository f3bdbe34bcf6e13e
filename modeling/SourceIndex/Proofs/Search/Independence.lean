import Mathlib
import SourceIndex.Proofs.Build.Fresh
import SourceIndex.Proofs.Search.Response

/-! # Searches by words without vectors

What a search by words gives does not depend on vectors: not on those of the chunks, not on the
model and the dimension that the index records, and not on the model the search is made with. The
*bare* part of each of these is what is left without vectors. A search by words comes out the same
on the bare parts (`Search.run_bare`), so two searches whose bare parts are equal give the same
response, or fail in the same way (`Search.run_eq_of_bare`).
-/

set_option autoImplicit false

namespace SourceIndex

/-! ## What is left without vectors -/

/-- What is recorded about a build, without its model and dimension. -/
def BuildFacts.bare (f : BuildFacts) : BuildFacts := { f with model := none, dimension := 0 }

/-- A store without the vectors of its chunks and what is recorded about them. -/
def Store.bare (s : Store) : Store :=
  { s with chunks := s.chunks.map Chunk.bare, facts := s.facts.map BuildFacts.bare }

/-- What a search has to work with, without a model. -/
def SearchContext.bare (x : SearchContext) : SearchContext := { x with model := none }

@[simp] theorem SearchContext.bare_settings (x : SearchContext) : x.bare.settings = x.settings := rfl

/-! ## Reading chunks -/

namespace Store

variable (s : Store)

theorem document_bare (c : Chunk) : document c.bare = document c := rfl

/-- The documents of the word index are made of texts only. -/
theorem map_document_bare : s.bare.chunks.map document = s.chunks.map document := by
  show (s.chunks.map Chunk.bare).map document = s.chunks.map document
  rw [List.map_map]
  exact List.map_congr_left fun c _ => document_bare c

theorem keywordSearch_bare (query : String) (language : Option String) (limit : Nat) :
    s.bare.keywordSearch query language limit = s.keywordSearch query language limit := by
  rw [keywordSearch, keywordSearch, map_document_bare]

theorem chunk?_bare (id : String) : s.bare.chunk? id = (s.chunk? id).map Chunk.bare := by
  unfold chunk?
  show (s.chunks.map Chunk.bare).find? _ = _
  rw [List.find?_map]
  rfl

end Store

/-! ## Searching -/

namespace Search

variable {x x' : SearchContext} {generation : Nat} {facts facts' : BuildFacts}

/-- Without a query vector nothing is compared, so only words are left to find chunks by. -/
theorem hits_bare (settings : Settings) (s : Store) (query : String) (language : Option String)
    (window : Nat) :
    hits settings s.bare .keyword query none language window =
      hits settings s .keyword query none language window := by
  simp only [hits, Store.keywordSearch_bare]

theorem results_bare (s : Store) (o : OutputOptions) (found : List (FusedHit Float)) :
    results x.bare s.bare o found = results x s o found := by
  -- each hit finds the bare form of the chunk it would find
  have hfound : (found.filterMap fun h => (s.bare.chunk? h.id).map fun c => (h, c)) =
      (found.filterMap fun h => (s.chunk? h.id).map fun c => (h, c)).map
        fun p => (p.1, p.2.bare) := by
    rw [List.map_filterMap]
    refine List.filterMap_congr fun h _ => ?_
    rw [Store.chunk?_bare, Option.map_map, Option.map_map]
    rfl
  refine List.ext_getElem? fun i => ?_
  simp only [results, hfound, List.getElem?_mapIdx, List.getElem?_map, Option.map_map]
  -- and an excerpt shows nothing of a vector
  rfl

/-- A search by words on what is left without vectors is the same search. -/
theorem run_bare (store : Except Fault Store) {r : SearchRequest} (hmode : r.mode = .keyword) :
    run x.bare generation facts.bare (store.map Store.bare) r = run x generation facts store r := by
  rw [run, run, hmode, SearchContext.bare_settings]
  cases r.check x.settings with
  | error f => rfl
  | ok asked =>
    cases store with
    | error f => rfl
    | ok s =>
      -- no vector is asked for, and the windows are the same
      show Except.ok _ = Except.ok _
      rw [hits_bare, results_bare]
      rfl

/-- Two searches by words that differ only in vectors — those of the chunks, the model and the
dimension that the builds recorded, and the model at hand — give the same response or fail with
the same fault. -/
theorem run_eq_of_bare (hx : x.bare = x'.bare) (hfacts : facts.bare = facts'.bare)
    {store store' : Except Fault Store} (hstore : store.map Store.bare = store'.map Store.bare)
    {r : SearchRequest} (hmode : r.mode = .keyword) :
    run x generation facts store r = run x' generation facts' store' r := by
  calc run x generation facts store r
      = run x.bare generation facts.bare (store.map Store.bare) r := (run_bare store hmode).symm
    _ = run x'.bare generation facts'.bare (store'.map Store.bare) r := by rw [hx, hfacts, hstore]
    _ = run x' generation facts' store' r := run_bare store' hmode

/-- The small store with a vector and a model at hand, and without both. -/
theorem run_eq_of_bare_small :
    smallStore.chunks.map (fun c => c.embedding.isSome) = [true, false] ∧
      smallStore.bare.chunks.map (fun c => c.embedding.isSome) = [false, false] ∧
      run smallContext 1 smallFacts (.ok smallStore) (smallRequest .keyword) =
        run smallContext.bare 1 smallFacts.bare (.ok smallStore.bare) (smallRequest .keyword) := by
  have hstore : (Except.ok smallStore : Except Fault Store).map Store.bare =
      (Except.ok smallStore.bare).map Store.bare := rfl
  have hmode : (smallRequest .keyword).mode = .keyword := rfl
  exact ⟨rfl, rfl, run_eq_of_bare rfl rfl hstore hmode⟩

end Search

end SourceIndex
