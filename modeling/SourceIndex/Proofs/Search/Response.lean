import Mathlib
import SourceIndex.Proofs.Project.Provenance
import SourceIndex.Proofs.Search.Lists
import SourceIndex.Proofs.Text.Blank
import SourceIndex.Search.Run

/-! # Search responses

A search that nothing keeps from answering gives a response with as many results as there are
candidates, or as its limit allows (`Search.run_answers`). What the candidates are depends on the
mode: the chunks that have a term of the query, those that have a vector, or whatever one of the two
rankings lists. A hybrid search cuts the two rankings to a window that is wider than the limit, and
to the limit only after they are fused.
-/

set_option autoImplicit false

namespace SourceIndex

namespace Search

/-! ## Rankings and candidates -/

/-- How many entries of a ranking are looked at. -/
def reach (settings : Settings) (mode : SearchMode) (limit : Nat) : Nat :=
  match mode with
  | .hybrid => max (limit * 10) settings.search.candidateWindow
  | .vector | .keyword => limit

/-- The ranking by vectors; there is none without a query vector. -/
def vectorList (s : Store) (vector : Option Embedding) (language : Option String) (reach : Nat) :
    List (Ranked Float) :=
  match vector with
  | some v => s.vectorSearch v language reach
  | none => []

/-- The ranking by words; a search by vectors has none. -/
def wordList (s : Store) (mode : SearchMode) (query : String) (language : Option String)
    (reach : Nat) : List (Ranked Float) :=
  match mode with
  | .vector => []
  | .keyword | .hybrid => s.keywordSearch query language reach

/-- The ids of the chunks that a search may list. -/
def candidates (settings : Settings) (s : Store) (r : SearchRequest) (limit : Nat)
    (vector : Option Embedding) : Finset String :=
  let query := Text.trim r.query
  let reach := reach settings r.mode limit
  match r.mode with
  | .keyword => ((s.matching query r.language).map Chunk.id).toFinset
  | .vector => ((s.embedded r.language).map Chunk.id).toFinset
  | .hybrid => ((vectorList s vector r.language reach).map Ranked.id).toFinset ∪
      ((wordList s r.mode query r.language reach).map Ranked.id).toFinset

/-- What a response says about a store: its results are numbered, different chunks that pass the
filter, as many as there are candidates or as the limit allows, and each knows its position in the
ranking by vectors. Where vectors are compared, the chunks without one are counted. -/
structure Answers (settings : Settings) (s : Store) (r : SearchRequest) (limit : Nat)
    (vector : Option Embedding) (response : SearchResponse) : Prop where
  ranks : response.results.map SearchResult.rank = List.range' 1 response.results.length
  distinct : (response.results.map SearchResult.chunkId).Nodup
  passing : ∀ result ∈ response.results,
    ∃ c ∈ s.chunks, c.id = result.chunkId ∧ Store.passes r.language c = true
  count : response.results.length = min limit (candidates settings s r limit vector).card
  vectorRank : ∀ result ∈ response.results, result.vectorRank =
    position ((vectorList s vector r.language (reach settings r.mode limit)).map Ranked.id)
      result.chunkId
  embedded : ∀ result ∈ response.results, result.vectorRank.isSome = true →
    ∃ c ∈ s.chunks, c.id = result.chunkId ∧ c.embedding.isSome = true
  unembedded : response.unembedded =
    if r.mode.needsVectors then s.countUnembedded r.language else 0

/-! ## Hits -/

section Hits

variable {s : Store} {mode : SearchMode} {query : String} {vector : Option Embedding}
  {language : Option String} {n : Nat}

theorem exists_of_mem_wordList {id : String}
    (hid : id ∈ (wordList s mode query language n).map Ranked.id) :
    ∃ c ∈ s.matching query language, c.id = id := by
  unfold wordList at hid
  split at hid
  · cases hid
  · exact (s.lists_keywordSearch language query n).exists_chunk hid
  · exact (s.lists_keywordSearch language query n).exists_chunk hid

theorem nodup_wordList (hids : (s.chunks.map Chunk.id).Nodup) :
    ((wordList s mode query language n).map Ranked.id).Nodup := by
  have hwords := (s.lists_keywordSearch language query n).nodup
    (s.nodup_matching language hids query)
  unfold wordList
  split
  · exact List.nodup_nil
  · exact hwords
  · exact hwords

/-- A query without terms is not looked up, and nothing would be found. -/
theorem wordList_eq :
    (if mode ≠ .vector ∧ Keyword.hasTerms query then s.keywordSearch query language n else []) =
      wordList s mode query language n := by
  unfold wordList
  cases hterms : Keyword.hasTerms query with
  | true => cases mode <;> simp
  | false => cases mode <;> simp [s.keywordSearch_eq_nil language hterms n]

-- no stored vector is shorter than that of the query
variable (hlong : ∀ v, vector = some v → ∀ c ∈ s.chunks, ∀ w, c.embedding = some w →
  v.length ≤ w.length)

include hlong

/-- Every entry of the ranking by vectors is a chunk that has one. -/
theorem exists_of_mem_vectorList {id : String}
    (hid : id ∈ (vectorList s vector language n).map Ranked.id) :
    ∃ c ∈ s.embedded language, c.id = id := by
  unfold vectorList at hid
  split at hid
  · rename_i v
    exact (s.lists_vectorSearch language (hlong v rfl) n).exists_chunk hid
  · cases hid

theorem nodup_vectorList (hids : (s.chunks.map Chunk.id).Nodup) :
    ((vectorList s vector language n).map Ranked.id).Nodup := by
  unfold vectorList
  split
  · rename_i v
    exact (s.lists_vectorSearch language (hlong v rfl) n).nodup (s.nodup_embedded language hids)
  · exact List.nodup_nil

/-- The hits of a search: each id of the two rankings once, with its positions. -/
theorem ranks_hits (settings : Settings) (query : String) (language : Option String) (n : Nat)
    (hids : (s.chunks.map Chunk.id).Nodup) (hmode : vector.isSome = mode.needsVectors) :
    Fusion.Ranks (Fusion.sides (vectorList s vector language n) (wordList s mode query language n))
      (hits settings s mode query vector language n) := by
  have hvector : ((vectorList s vector language n).map Ranked.id).Nodup :=
    nodup_vectorList hlong hids
  have hword : ((wordList s mode query language n).map Ranked.id).Nodup := nodup_wordList hids
  unfold hits
  rw [wordList_eq]
  cases mode with
  | hybrid => exact Fusion.ranks_fuseWith _ _ hvector hword
  | vector =>
    have hsides : Fusion.sides (vectorList s vector language n) (wordList s .vector query language n) =
        Function.update (fun _ => []) .vector ((vectorList s vector language n).map Ranked.id) := by
      funext side
      cases side <;> rfl
    rw [hsides]
    exact Fusion.ranks_single .vector hvector
  | keyword =>
    have hnone : vector = none := by simpa [SearchMode.needsVectors] using hmode
    have hsides : Fusion.sides (vectorList s none language n) (wordList s .keyword query language n) =
        Function.update (fun _ => []) .keyword
          ((wordList s .keyword query language n).map Ranked.id) := by
      funext side
      cases side <;> rfl
    rw [hnone, hsides]
    exact Fusion.ranks_single .keyword hword

/-- Every hit is a chunk of the store that passes the filter. -/
theorem exists_chunk_of_mem_hits {settings : Settings} (hids : (s.chunks.map Chunk.id).Nodup)
    (hmode : vector.isSome = mode.needsVectors) {hit : FusedHit Float}
    (hhit : hit ∈ hits settings s mode query vector language n) :
    ∃ c ∈ s.chunks, c.id = hit.id ∧ Store.passes language c = true := by
  obtain ⟨side, hside⟩ := ((ranks_hits hlong settings query language n hids hmode).mem_iff
    hit.id).mp (List.mem_map_of_mem hhit)
  cases side with
  | vector =>
    obtain ⟨c, hc, hid⟩ := exists_of_mem_vectorList hlong hside
    obtain ⟨hmem, hpass⟩ := List.mem_filter.mp hc
    exact ⟨c, hmem, hid, (Bool.and_eq_true_iff.mp hpass).1⟩
  | keyword =>
    obtain ⟨c, hc, hid⟩ := exists_of_mem_wordList hside
    obtain ⟨hmem, hpass⟩ := List.mem_filter.mp hc
    exact ⟨c, hmem, hid, (Bool.and_eq_true_iff.mp hpass).1⟩

/-- A search has as many hits as candidates, up to its limit: a single ranking is cut to the limit
already, two rankings are not. -/
theorem min_length_hits (settings : Settings) {r : SearchRequest} (limit : Nat)
    (hids : (s.chunks.map Chunk.id).Nodup) (hmode : vector.isSome = r.mode.needsVectors) :
    min limit (hits settings s r.mode (Text.trim r.query) vector r.language
      (reach settings r.mode limit)).length =
      min limit (candidates settings s r limit vector).card := by
  have hranks := ranks_hits hlong settings (Text.trim r.query) r.language
    (reach settings r.mode limit) hids hmode
  have hvector : ((vectorList s vector r.language limit).map Ranked.id).Nodup :=
    nodup_vectorList hlong hids
  have hword : ((wordList s r.mode (Text.trim r.query) r.language limit).map Ranked.id).Nodup :=
    nodup_wordList hids
  rw [hranks.length_eq]
  unfold candidates
  cases hcase : r.mode with
  | hybrid => rfl
  | vector =>
    rw [hcase] at hmode
    obtain ⟨v, rfl⟩ := Option.isSome_iff_exists.mp hmode
    have hlength := (s.lists_vectorSearch r.language (hlong v rfl) limit).length_eq
    show min limit (((vectorList s (some v) r.language limit).map Ranked.id).toFinset ∪ ∅).card =
      min limit ((s.embedded r.language).map Chunk.id).toFinset.card
    rw [Finset.union_empty, List.toFinset_card_of_nodup hvector,
      List.toFinset_card_of_nodup (s.nodup_embedded r.language hids), List.length_map,
      List.length_map]
    show min limit (s.vectorSearch v r.language limit).length = _
    rw [hlength, Nat.min_self_assoc]
  | keyword =>
    rw [hcase] at hmode hword
    have hnone : vector = none := by simpa [SearchMode.needsVectors] using hmode
    subst hnone
    have hlength := (s.lists_keywordSearch r.language (Text.trim r.query) limit).length_eq
    show min limit (∅ ∪ ((wordList s .keyword (Text.trim r.query) r.language limit).map
        Ranked.id).toFinset).card =
      min limit ((s.matching (Text.trim r.query) r.language).map Chunk.id).toFinset.card
    rw [Finset.empty_union, List.toFinset_card_of_nodup hword,
      List.toFinset_card_of_nodup (s.nodup_matching r.language hids _), List.length_map,
      List.length_map]
    show min limit (s.keywordSearch _ r.language limit).length = _
    rw [hlength, Nat.min_self_assoc]

end Hits

/-! ## Results -/

section Results

variable {x : SearchContext} {s : Store} {o : OutputOptions} {hits : List (FusedHit Float)}
  (hfound : ∀ hit ∈ hits, (s.chunk? hit.id).isSome = true)

include hfound

/-- Where every hit has a chunk, there is a result for each, in order. -/
theorem map_results : (results x s o hits).map (fun r => (r.rank, r.chunkId, r.vectorRank)) =
    hits.mapIdx fun i hit => (i + 1, hit.id, hit.vectorRank) := by
  have hall : (hits.filterMap fun h => (s.chunk? h.id).map fun c => (h, c)).map Prod.fst = hits := by
    induction hits with
    | nil => rfl
    | cons hit rest ih =>
      obtain ⟨c, hc⟩ := Option.isSome_iff_exists.mp (hfound hit List.mem_cons_self)
      rw [List.filterMap_cons, hc]
      exact congrArg _ (ih fun h hh => hfound h (List.mem_cons_of_mem _ hh))
  unfold results
  conv_rhs => rw [← hall]
  refine List.ext_getElem? fun i => ?_
  simp only [List.getElem?_map, List.getElem?_mapIdx, Option.map_map]
  rfl

theorem length_results : (results x s o hits).length = hits.length := by
  have hlength := congrArg List.length (map_results (x := x) (o := o) hfound)
  rwa [List.length_map, List.length_mapIdx] at hlength

theorem map_rank_results : (results x s o hits).map SearchResult.rank = List.range' 1 hits.length := by
  have hranks := congrArg (List.map Prod.fst) (map_results (x := x) (o := o) hfound)
  rw [List.map_map] at hranks
  refine Eq.trans hranks (List.ext_getElem (by simp) fun i _ _ => ?_)
  simp [Nat.add_comm]

theorem map_chunkId_results :
    (results x s o hits).map SearchResult.chunkId = hits.map FusedHit.id := by
  have hids := congrArg (List.map fun p => p.2.1) (map_results (x := x) (o := o) hfound)
  rw [List.map_map] at hids
  refine Eq.trans hids (List.ext_getElem (by simp) fun i _ _ => ?_)
  simp

theorem exists_hit_of_mem_results {result : SearchResult} (h : result ∈ results x s o hits) :
    ∃ hit ∈ hits, hit.id = result.chunkId ∧ hit.vectorRank = result.vectorRank := by
  have hmem := List.mem_map_of_mem (f := fun r => (r.rank, r.chunkId, r.vectorRank)) h
  rw [map_results hfound] at hmem
  obtain ⟨i, hi, heq⟩ := List.mem_mapIdx.mp hmem
  obtain ⟨-, hid, hrank⟩ : i + 1 = _ ∧ hits[i].id = _ ∧ hits[i].vectorRank = _ := by
    simpa only [Prod.mk.injEq] using heq
  exact ⟨hits[i], List.getElem_mem hi, hid, hrank⟩

end Results

end Search

/-! ## Queries -/

/-- A model that answers every query with a vector of its dimension at least. -/
def EmbeddingModel.Works (m : EmbeddingModel) : Prop :=
  ∀ text, ∃ v, m.query text = .answer v ∧ m.dimension ≤ v.length

theorem EmbeddingModel.Works.embedQuery {m : EmbeddingModel} (h : m.Works) (dimension : Nat)
    (text : String) : ∃ v, m.embedQuery dimension text = .answer v := by
  obtain ⟨v, hanswer, hlong⟩ := h text
  have hfit : Embedding.fit? (min dimension m.dimension) v =
      some (Embedding.cut (min dimension m.dimension) v) := by
    rw [Embedding.fit?, if_neg]
    omega
  refine ⟨Embedding.cut (min dimension m.dimension) v, ?_⟩
  rw [EmbeddingModel.embedQuery, hanswer]
  simp only [hfit]

namespace Search

/-- A search at hand with the model that made the vectors of an index. -/
structure Usable (x : SearchContext) (facts : BuildFacts) (m : EmbeddingModel) : Prop where
  configured : x.model = some m
  recorded : facts.model = some m.name
  embedded : 0 < facts.dimension

theorem Usable.usableModel {x : SearchContext} {facts : BuildFacts} {m : EmbeddingModel}
    (h : Usable x facts m) (mode : SearchMode) : usableModel x mode facts = .ok m := by
  unfold Search.usableModel
  rw [h.configured]
  dsimp only
  rw [if_neg (Nat.ne_of_gt h.embedded), if_pos h.recorded]

/-- There is a working model with the name that the index records, and a profile asks for no larger
dimension than the index has. -/
structure Serves (x : SearchContext) (facts : BuildFacts) (profile : Option ProfileName)
    (m : EmbeddingModel) : Prop where
  configured : x.model = some m
  recorded : facts.model = some m.name
  works : m.Works
  within : ∀ name, profile = some name →
    (Profile.resolve name 0 0 x.settings.profiles m.dimension).dimension ≤ facts.dimension

variable {models : EmbeddingModel → Prop} {x : SearchContext} {facts : BuildFacts} {s : Store}
  {r : SearchRequest} {limit : Nat}

theorem Serves.queryVector_ok {profile : Option ProfileName} {m : EmbeddingModel}
    (h : Serves x facts profile m) (hpos : 0 < facts.dimension) {mode : SearchMode}
    (hmode : mode.needsVectors = true) (query : String) :
    ∃ v, queryVector x facts mode profile query = .ok (some v) := by
  have husable : Usable x facts m := ⟨h.configured, h.recorded, hpos⟩
  have hdimension : ∃ d, dimensionFor x.settings m facts profile = .ok d := by
    unfold dimensionFor
    split
    · exact ⟨_, rfl⟩
    · rename_i name
      exact ⟨_, if_neg (Nat.not_lt.mpr (h.within name rfl))⟩
  obtain ⟨d, hd⟩ := hdimension
  obtain ⟨v, hv⟩ := h.works.embedQuery d query
  refine ⟨v, ?_⟩
  unfold queryVector
  rw [if_pos hmode]
  refine bind_ok_iff.mpr ⟨m, husable.usableModel mode, bind_ok_iff.mpr ⟨d, hd, ?_⟩⟩
  rw [hv]
  rfl

/-- The query vector of a search, if its mode needs one. -/
theorem exists_queryVector (hvouched : Vouched models facts s.chunks)
    (hmodel : r.mode.needsVectors = true → ∃ m, Serves x facts r.profile m) (query : String) :
    ∃ vector, queryVector x facts r.mode r.profile query = .ok vector ∧
      vector.isSome = r.mode.needsVectors := by
  cases hneeds : r.mode.needsVectors with
  | false => exact ⟨none, by rw [queryVector, hneeds]; rfl, rfl⟩
  | true =>
    obtain ⟨m, hm⟩ := hmodel hneeds
    obtain ⟨v, hv⟩ := hm.queryVector_ok (hvouched.dimension_pos m.name hm.recorded) hneeds query
    exact ⟨some v, hv, rfl⟩

theorem check_ok {settings : Settings} (hquery : Text.isBlankText r.query = false)
    (hterms : r.mode = .keyword → Keyword.hasTerms (Text.trim r.query) = true)
    (hlimit : r.limit.getD settings.search.defaultLimit = limit) (hpos : 0 < limit) :
    r.check settings = .ok (Text.trim r.query, limit) := by
  have hne : Text.trim r.query ≠ "" := fun hempty => by
    rw [Text.trim_eq_empty_iff, hquery] at hempty
    cases hempty
  unfold SearchRequest.check
  simp only [hlimit]
  rw [if_neg hne, if_neg (Nat.ne_of_gt hpos), if_neg]
  rintro ⟨hmode, hnone⟩
  simp [hterms hmode] at hnone

theorem window_ok {settings : Settings} (mode : SearchMode) (hrange : limit * 10 < UInt64.size) :
    window settings mode limit = .ok (reach settings mode limit) := by
  cases mode with
  | hybrid => exact if_pos hrange
  | vector => rfl
  | keyword => rfl

/-! ## Responses -/

/-- A response comes of a proper request, the vector of its query, a window and a store. -/
theorem exists_of_run {generation : Nat} {store : Except Fault Store} {response : SearchResponse}
    (h : run x generation facts store r = .ok response) :
    ∃ query limit vector reach s, r.check x.settings = .ok (query, limit) ∧
      queryVector x facts r.mode r.profile query = .ok vector ∧
      window x.settings r.mode limit = .ok reach ∧ store = .ok s ∧
      response = {
        query, mode := r.mode, generation
        dimension := (vector.map List.length).getD 0
        unembedded := if r.mode.needsVectors then s.countUnembedded r.language else 0
        results := results x s r.output
          ((hits x.settings s r.mode query vector r.language reach).take limit) } := by
  unfold run at h
  obtain ⟨⟨query, limit⟩, hcheck, h⟩ := bind_ok_iff.mp h
  obtain ⟨vector, hvector, h⟩ := bind_ok_iff.mp h
  obtain ⟨reach, hreach, h⟩ := bind_ok_iff.mp h
  obtain ⟨s, hs, h⟩ := bind_ok_iff.mp h
  exact ⟨query, limit, vector, reach, s, hcheck, hvector, hreach, hs, (Except.ok.inj h).symm⟩

/-- The results for the hits of a search answer it. -/
theorem answers_results {vector : Option Embedding} (generation : Nat)
    (hids : (s.chunks.map Chunk.id).Nodup)
    (hlong : ∀ v, vector = some v → ∀ c ∈ s.chunks, ∀ w, c.embedding = some w →
      v.length ≤ w.length)
    (hmode : vector.isSome = r.mode.needsVectors) :
    let found := hits x.settings s r.mode (Text.trim r.query) vector r.language
      (reach x.settings r.mode limit)
    Answers x.settings s r limit vector
      { query := Text.trim r.query, mode := r.mode, generation
        dimension := (vector.map List.length).getD 0
        unembedded := if r.mode.needsVectors then s.countUnembedded r.language else 0
        results := results x s r.output (found.take limit) } := by
  intro found
  have hranks : Fusion.Ranks _ found := ranks_hits hlong x.settings (Text.trim r.query) r.language
    (reach x.settings r.mode limit) hids hmode
  have hcount := min_length_hits hlong x.settings limit hids hmode
  have hchunk : ∀ hit ∈ found, ∃ c ∈ s.chunks, c.id = hit.id ∧ Store.passes r.language c = true :=
    fun hit hhit => exists_chunk_of_mem_hits hlong hids hmode hhit
  -- so no hit is lost on the way to its result
  have hfound : ∀ hit ∈ found.take limit, (s.chunk? hit.id).isSome = true := by
    intro hit hhit
    obtain ⟨c, hc, hid, -⟩ := hchunk hit (List.mem_of_mem_take hhit)
    rw [← hid, Store.chunk?_of_mem hids hc]
    rfl
  have hplaced : ∀ result ∈ results x s r.output (found.take limit), ∃ hit ∈ found,
      hit.id = result.chunkId ∧ hit.vectorRank = result.vectorRank := by
    intro result hresult
    obtain ⟨hit, hhit, heq⟩ := exists_hit_of_mem_results hfound hresult
    exact ⟨hit, List.mem_of_mem_take hhit, heq⟩
  have hrank : ∀ result ∈ results x s r.output (found.take limit), result.vectorRank =
      position ((vectorList s vector r.language (reach x.settings r.mode limit)).map Ranked.id)
        result.chunkId := by
    intro result hresult
    obtain ⟨hit, hhit, hid, hrank⟩ := hplaced result hresult
    rw [← hrank, ← hid]
    exact hranks.rankOn_eq hit hhit .vector
  constructor
  case ranks =>
    rw [length_results hfound]
    exact map_rank_results hfound
  case distinct =>
    show ((results x s r.output (found.take limit)).map SearchResult.chunkId).Nodup
    rw [map_chunkId_results hfound, List.map_take]
    exact hranks.distinct.sublist (List.take_sublist _ _)
  case passing =>
    intro result hresult
    obtain ⟨hit, hhit, hid, -⟩ := hplaced result hresult
    exact hid ▸ hchunk hit hhit
  case count =>
    rw [length_results hfound, List.length_take]
    exact hcount
  case vectorRank => exact hrank
  case embedded =>
    intro result hresult hsome
    rw [hrank result hresult, position_isSome_iff] at hsome
    obtain ⟨c, hc, hid⟩ := exists_of_mem_vectorList hlong hsome
    obtain ⟨hmem, hboth⟩ := List.mem_filter.mp hc
    exact ⟨c, hmem, hid, (Bool.and_eq_true_iff.mp hboth).2⟩
  case unembedded => rfl

/-- A search that nothing keeps from answering gives a response, and the response answers it: the
query is not blank and has a term if it is looked up by words alone, the limit is in range, and there
is a model for the vectors if they are needed. -/
theorem run_answers (generation : Nat) (hids : (s.chunks.map Chunk.id).Nodup)
    (hvouched : Vouched models facts s.chunks) (hquery : Text.isBlankText r.query = false)
    (hterms : r.mode = .keyword → Keyword.hasTerms (Text.trim r.query) = true)
    (hlimit : r.limit.getD x.settings.search.defaultLimit = limit) (hpos : 0 < limit)
    (hrange : limit * 10 < UInt64.size)
    (hmodel : r.mode.needsVectors = true → ∃ m, Serves x facts r.profile m) :
    ∃ vector response, queryVector x facts r.mode r.profile (Text.trim r.query) = .ok vector ∧
      run x generation facts (.ok s) r = .ok response ∧
      Answers x.settings s r limit vector response := by
  obtain ⟨vector, hvector, hmode⟩ := exists_queryVector hvouched hmodel (Text.trim r.query)
  have hlong : ∀ v, vector = some v → ∀ c ∈ s.chunks, ∀ w, c.embedding = some w →
      v.length ≤ w.length := by
    -- all stored vectors have the recorded dimension, and that of the query is not larger
    rintro v rfl c hc w hw
    obtain ⟨m, -, -, hgives⟩ := hvouched.given c hc w hw
    rw [hgives.length]
    exact length_queryVector_le hvector
  refine ⟨vector, _, hvector, ?_, answers_results generation hids hlong hmode⟩
  rw [run, check_ok hquery hterms hlimit hpos]
  show (queryVector x facts r.mode r.profile (Text.trim r.query) >>= _) = _
  rw [hvector]
  show (window x.settings r.mode limit >>= _) = _
  rw [window_ok r.mode hrange]
  rfl

/-! ## A small store -/

/-- A chunk of a single line. -/
def smallChunk (id text : String) (embedding : Option Embedding) : Chunk :=
  { (default : Chunk) with
    id
    language := "markdown"
    kind := .window
    startLine := 1
    endLine := 1
    content := text
    embedding }

/-- A store of two chunks, one of which has a vector. -/
def smallStore : Store where
  chunks := [smallChunk "a" "one" (some (Embedding.cut 1 [1])), smallChunk "b" "one two" none]

/-- What is recorded about it. -/
def smallFacts : BuildFacts := { (default : BuildFacts) with model := some "constant", dimension := 1 }

/-- What it is searched with. -/
def smallContext : SearchContext where
  settings := {}
  model := some Project.constantModel
  source _ := none

/-- A search for a word of both chunks. -/
def smallRequest (mode : SearchMode) : SearchRequest :=
  { query := "one", mode, output := .ofSettings {} }

theorem nodup_smallStore : (smallStore.chunks.map Chunk.id).Nodup := by decide

theorem vouched_smallStore : Vouched (· = Project.constantModel) smallFacts smallStore.chunks where
  dimension_zero h := by cases h
  dimension_pos _ _ := Nat.one_pos
  given c hc v hv := by
    rcases List.mem_cons.mp hc with rfl | hc
    · obtain rfl := Option.some.inj hv
      exact ⟨Project.constantModel, rfl, rfl, [_], [[1]], 0, [1], rfl, rfl, rfl, rfl, le_refl _, rfl⟩
    · obtain rfl := List.mem_singleton.mp hc
      cases hv

theorem serves_small : Serves smallContext smallFacts none Project.constantModel where
  configured := rfl
  recorded := rfl
  works _ := ⟨[1], rfl, le_refl _⟩
  within _ h := by cases h

/-- A hybrid search of the small store. -/
theorem run_answers_small : ∃ vector response,
    queryVector smallContext smallFacts .hybrid none "one" = .ok vector ∧
      run smallContext 1 smallFacts (.ok smallStore) (smallRequest .hybrid) = .ok response ∧
      Answers {} smallStore (smallRequest .hybrid) 10 vector response := by
  have hblank : Text.isBlankText (smallRequest .hybrid).query = false := by decide
  have hrange : 10 * 10 < UInt64.size := by decide
  exact run_answers (x := smallContext) (r := smallRequest .hybrid) 1 nodup_smallStore
    vouched_smallStore hblank nofun rfl (by decide) hrange fun _ => ⟨_, serves_small⟩

/-- A search by words counts no chunks without a vector, even if there are some. -/
theorem unembedded_small_keyword :
    (smallStore.chunks.map Chunk.id).Nodup ∧
      Vouched (· = Project.constantModel) smallFacts smallStore.chunks ∧
      Keyword.hasTerms (smallRequest .keyword).query = true ∧
      ∃ response,
        run smallContext 1 smallFacts (.ok smallStore) (smallRequest .keyword) = .ok response ∧
          response.unembedded = 0 ∧ smallStore.countUnembedded none = 1 :=
  ⟨nodup_smallStore, vouched_smallStore, by decide, _, rfl, rfl, rfl⟩

end Search

end SourceIndex
