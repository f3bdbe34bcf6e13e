import SourceIndex.Embedding.Model
import SourceIndex.Search.Fusion
import SourceIndex.Search.Response
import SourceIndex.Store.Search

set_option autoImplicit false

/-! # Searches

A search ranks the chunks of one generation by vectors, by words or by both, and shows the best
of them. The two rankings of a hybrid search are cut to a window that is wider than the limit,
fused, and only then cut to the limit.

* `SearchRequest.check`: what is wrong with a request by itself.
* `Search.queryVector`: the vector of the query, if the index can be searched with it.
* `Search.run`: the whole search.
-/

namespace SourceIndex

/-- A search that is asked for. -/
structure SearchRequest where
  query : String
  mode : SearchMode := default
  /-- How many results are wanted at most; the setting counts if it is absent. -/
  limit : Option Nat := none
  /-- The language of the chunks that are wanted. -/
  language : Option String := none
  /-- The profile whose dimension is used instead of that of the index. -/
  profile : Option ProfileName := none
  output : OutputOptions
  deriving Inhabited

/-- What a search has to work with. -/
structure SearchContext where
  settings : Settings
  model : Option EmbeddingModel
  /-- Reads the text of a source file. -/
  source : Path → Option String

namespace SearchRequest

/-- The request with a language filter, whose name is in lower case. -/
def withLanguage (r : SearchRequest) (language : Option String) : SearchRequest :=
  { r with language := language.map Text.lowercase }

/-- The query and the limit that count, unless one of them is of no use. -/
def check (r : SearchRequest) (s : Settings) : Except Fault (String × Nat) :=
  let query := Text.trim r.query
  let limit := r.limit.getD s.search.defaultLimit
  if query = "" then .error (.invalidQuery "query is empty")
  else if limit = 0 then .error (.invalidQuery "limit must be at least 1")
  else if r.mode = .keyword ∧ !Keyword.hasTerms query then
    .error (.invalidQuery ("'" ++ query ++ "' has no searchable terms"))
  else .ok (query, limit)

end SearchRequest

namespace Search

/-- A search mode has nothing to work with. -/
def unavailable (mode : SearchMode) (reason : String) : Fault := .unavailable mode.id reason

/-- The dimension at which vectors are compared. -/
def dimensionFor (s : Settings) (m : EmbeddingModel) (facts : BuildFacts)
    (profile : Option ProfileName) : Except Fault Nat :=
  match profile with
  | none => .ok facts.dimension
  | some name =>
    let requested := (Profile.resolve name 0 0 s.profiles m.dimension).dimension
    if facts.dimension < requested then .error (.dimensionMismatch facts.dimension requested)
    else .ok requested

/-- The model that can search the index. -/
def usableModel (x : SearchContext) (mode : SearchMode) (facts : BuildFacts) :
    Except Fault EmbeddingModel :=
  match x.model with
  | none => .error (unavailable mode "no embedding provider configured")
  | some m =>
    if facts.dimension = 0 then
      .error (unavailable mode "the index was built without embeddings")
    else if facts.model = some m.name then .ok m
    else .error (unavailable mode ("the index was built with model '" ++
      facts.model.getD "none" ++ "' but '" ++ m.name ++ "' is configured"))

/-- The vector of the query; a search by words needs none. -/
def queryVector (x : SearchContext) (facts : BuildFacts) (mode : SearchMode)
    (profile : Option ProfileName) (query : String) : Except Fault (Option Embedding) :=
  if mode.needsVectors then do
    let m ← usableModel x mode facts
    let dimension ← dimensionFor x.settings m facts profile
    match m.embedQuery dimension query with
    | .answer v => return some v
    | .failure f => throw (unavailable mode f.message)
    | .silence => throw (.timedOut .search)
  else .ok none

/-- How many entries of each ranking are looked at. The window of a hybrid search is a machine
word and may be too large for one. -/
def window (s : Settings) (mode : SearchMode) (limit : Nat) : Except Fault Nat :=
  match mode with
  | .hybrid =>
    if limit * 10 < UInt64.size then .ok (max (limit * 10) s.search.candidateWindow)
    else .error (.overflow "candidate window")
  | .vector | .keyword => .ok limit

/-- The ranked hits of a search. -/
def hits (s : Settings) (store : Store) (mode : SearchMode) (query : String)
    (vector : Option Embedding) (language : Option String) (window : Nat) :
    List (FusedHit Float) :=
  let byVector :=
    match vector with
    | some v => store.vectorSearch v language window
    | none => []
  let byWords :=
    if mode ≠ .vector ∧ Keyword.hasTerms query then store.keywordSearch query language window
    else []
  match mode with
  | .hybrid => Fusion.fuse s.search.fusionConstant byVector byWords
  | .vector => Fusion.single .vector byVector
  | .keyword => Fusion.single .keyword byWords

/-- The results for hits; a hit without a chunk is left out. -/
def results (x : SearchContext) (store : Store) (output : OutputOptions)
    (hits : List (FusedHit Float)) : List SearchResult :=
  let found := hits.filterMap fun h => (store.chunk? h.id).map fun c => (h, c)
  found.mapIdx fun i (h, c) =>
    { rank := i + 1
      chunkId := h.id
      score := h.score
      vectorRank := h.vectorRank
      keywordRank := h.keywordRank
      vectorScore := h.vectorScore
      keywordScore := h.keywordScore
      excerpt := c.excerpt output x.source }

/-- What a search in a generation gives. The store is opened last. -/
def run (x : SearchContext) (generation : Nat) (facts : BuildFacts)
    (store : Except Fault Store) (r : SearchRequest) : Except Fault SearchResponse := do
  let (query, limit) ← r.check x.settings
  let vector ← queryVector x facts r.mode r.profile query
  let window ← window x.settings r.mode limit
  let store ← store
  let hits := (hits x.settings store r.mode query vector r.language window).take limit
  return {
    query
    mode := r.mode
    generation
    dimension := (vector.map List.length).getD 0
    unembedded := if r.mode.needsVectors then store.countUnembedded r.language else 0
    results := results x store r.output hits }

end Search

end SourceIndex
