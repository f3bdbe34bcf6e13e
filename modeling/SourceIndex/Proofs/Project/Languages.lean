import Mathlib
import SourceIndex.Proofs.Project.Places
import SourceIndex.Proofs.Search.Narrowing

/-! # Indexes and searches of some languages

A build for some languages reads what a build for all languages reads, and keeps the files of these
(`Listing.sources_languages`, `Project.files_of_draft`). The chunks of an index have the ids of languages
throughout a run (`Run.labelled`). A search for a language ranks the chunks of this language and no others
(`Search.hits_eq_among`, `Search.shows_of_run`).
-/

set_option autoImplicit false

namespace SourceIndex

/-! ## Files of some languages -/

namespace Listing

variable (t : FileTree) (root relative : Path) (o : WalkOptions) (ids : List String)

/-- The source files of a project, listed and read with given options. -/
def sources : List SourceFile :=
  ((files t root o).toOption.getD []).filterMap fun path => (readSource t root path o).toOption.join

theorem ofBytes?_languages (bytes : ByteArray) :
    ofBytes? relative bytes { o with languages := some ids } =
      (ofBytes? relative bytes { o with languages := none }).filter fun file =>
        ids.contains file.language.id := by
  unfold ofBytes?
  dsimp only
  split
  · rfl
  · cases String.fromUTF8? bytes with
    | none => rfl
    | some content =>
        simp only [Option.bind_some, WalkOptions.keeps, Bool.and_true]
        by_cases hkept :
            ((Language.resolve relative content).language != .text || o.includeText) = true
        · simp [hkept, Option.filter, SourceFile.ofText]
        · simp [hkept]

/-- A choice of languages only leaves out files that would be read without it. -/
theorem readSource_languages :
    readSource t root relative { o with languages := some ids } =
      (readSource t root relative { o with languages := none }).map
        (Option.filter fun file => ids.contains file.language.id) := by
  unfold readSource
  cases t.locate (root.join relative) with
  | error obstacle => rfl
  | ok names =>
      dsimp only
      split
      · split <;> rfl
      · cases (t.item? names).bind FileItem.bytes? with
        | none => rfl
        | some bytes => exact congrArg Except.ok (ofBytes?_languages relative o ids bytes)

theorem sources_languages :
    sources t root { o with languages := some ids } =
      (sources t root { o with languages := none }).filter fun file =>
        ids.contains file.language.id := by
  unfold sources
  rw [List.filter_filterMap]
  -- what is listed has nothing to do with languages
  show ((files t root o).toOption.getD []).filterMap _ = ((files t root o).toOption.getD []).filterMap _
  apply List.filterMap_congr
  intro path _
  rw [readSource_languages]
  cases readSource t root path { o with languages := none } with
  | error obstacle => rfl
  | ok file => rfl

end Listing

/-- Without earlier records every file that is read is cut anew. -/
theorem Sorting.changed?_empty (r : Reading) : changed? .empty r = r.result.toOption.join := by
  unfold changed? renewed?
  cases r.result with
  | error obstacle => rfl
  | ok file =>
      cases file with
      | none => rfl
      | some file => rfl

namespace Project

variable {t : FileTree} {x : BuildContext} {o : BuildOptions} {mode : BuildMode}
  {base : Option BuildBase} {id : Nat} {store : Store} {built : Built}

/-- The source files that a full build of all languages finds. -/
def allSources (w : Workspace) (p : Project) : List SourceFile :=
  Listing.sources (seen w p) p.root (.ofSettings p.settings.index)

/-- A build from nothing records the source files that are listed and read for it. -/
theorem files_of_draft (hwf : t.WellFormed) (hdraft : draft t x o .full none id = .ok (store, built)) :
    (store.files.map fun f => (f.path, f.language)).Perm
      ((Listing.sources t x.root (x.walk o none)).map fun file => (file.path, file.language.id)) := by
  obtain ⟨plan, facts, hplan, -, -, hfiles, -⟩ := draft_spec (.of_none hwf) hdraft
  obtain ⟨listed, hlisted, rfl⟩ := ReadPlan.make_unhinted_iff.mp hplan
  have hchanged : (x.sorting t o none ⟨listed, .empty⟩).changed =
      Listing.sources t x.root (x.walk o none) := by
    unfold BuildContext.sorting Listing.sources
    rw [Sorting.changed_ofReadings, List.filterMap_map, hlisted]
    exact List.filterMap_congr fun path _ => Sorting.changed?_empty _
  rw [hfiles, Prepared.files_ofSorting]
  refine ((List.mergeSort_perm _ _).map _).trans ?_
  unfold BuildContext.cuts BuildContext.carriedCuts BuildContext.newCuts
  rw [hchanged, List.nil_append, List.map_map, List.map_map]
  exact List.Perm.refl _

end Project

/-! ## Languages of chunks -/

/-- Every chunk has the id of a language. -/
def Store.Labelled (s : Store) : Prop := ∀ c ∈ s.chunks, ∃ l : Language, c.language = l.id

/-- The chunks that a build cuts have the ids of languages, and the others keep theirs. -/
theorem Prepared.labelled_ofSorting {x : BuildContext} {o : BuildOptions} {base : Option BuildBase}
    (hbase : ∀ b, base = some b → b.store.Labelled) {s : Sorting} {c : Chunk}
    (hc : c ∈ (ofSorting x o base s).chunks) : ∃ l : Language, c.language = l.id := by
  rw [chunks_ofSorting] at hc
  obtain ⟨cut, hcut, hc⟩ := List.mem_flatMap.mp hc
  rcases List.mem_append.mp hcut with hcut | hcut
  · cases base with
    | none => cases hcut
    | some b =>
        obtain ⟨path, -, hcarry⟩ := List.mem_filterMap.mp hcut
        obtain ⟨record, -, rfl⟩ := Option.map_eq_some_iff.mp hcarry
        have hown : ∀ d ∈ b.store.chunksOf path, ∃ l : Language, d.language = l.id := by
          intro d hd
          rw [Store.chunksOf, List.mem_mergeSort] at hd
          exact hbase b rfl d (List.mem_filter.mp hd).1
        dsimp only at hc
        split at hc
        · exact hown c hc
        · obtain ⟨d, hd, rfl⟩ := List.mem_map.mp hc
          exact hown d hd
  · obtain ⟨file, -, rfl⟩ := List.mem_map.mp hcut
    exact ⟨file.language, Chunk.language_ofFile _ _ _ c hc⟩

variable {S : Scope} {w : Workspace} {p : Project}

/-- The chunks of a store have the ids of languages, whatever is recorded about its build. -/
def Scope.LabelledStore (_ : Scope) (_ : BuildFacts) (store : Store) : Prop := store.Labelled

theorem Scope.preserves_labelled (S : Scope) : S.Preserves S.LabelledStore := by
  intro t x o mode base id store built _ _ _ _ _ hbase hdraft
  obtain ⟨q, q', hmake, hcomplete, hstore, -, -⟩ := Project.draft_ok_iff.mp hdraft
  obtain ⟨plan, -, -, -, -, rfl⟩ := (Prepared.make_ok_iff _ q).mp hmake
  obtain ⟨-, hbare⟩ := Prepared.complete_spec hcomplete
  obtain ⟨hchunks, hfacts⟩ := Project.chunks_of_storeOf hstore
  refine ⟨_, hfacts, fun c hc => ?_⟩
  rw [hchunks] at hc
  have hmem : c.bare ∈ q'.chunks.map Chunk.bare := List.mem_map_of_mem hc
  rw [hbare] at hmem
  obtain ⟨d, hd, hdc⟩ := List.mem_map.mp hmem
  obtain ⟨l, hl⟩ := Prepared.labelled_ofSorting hbase hd
  have hlanguage := congrArg Chunk.language hdc
  exact ⟨l, hlanguage.symm.trans hl⟩

/-- Throughout every run, the chunks of the generation in use have the ids of languages. -/
theorem Run.labelled (h : Run S w p) {g : Generation} (hg : p.current = some g) {purpose table : String}
    {store : Store} (hstore : g.reader w.tree purpose table = .ok store) : store.Labelled :=
  ((h.invariant S.preserves_labelled).read hg hstore).2

/-! ## Searches for a language -/

namespace Search

/-- The hits among some chunks of a store: those of the rankings of these chunks. -/
def among (settings : Settings) (store : Store) (mode : SearchMode) (query : String)
    (vector : Option Embedding) (cs : List Chunk) (reach : Nat) : List (FusedHit Float) :=
  let byVector :=
    match vector with
    | some v => (Ranked.ranking (cs.filterMap (Store.similarity? v))).take reach
    | none => []
  let byWords :=
    if mode ≠ .vector ∧ Keyword.hasTerms query then
      (Ranked.ranking (cs.filterMap (store.wordScore? query))).take reach
    else []
  match mode with
  | .hybrid => Fusion.fuse settings.search.fusionConstant byVector byWords
  | .vector => Fusion.single .vector byVector
  | .keyword => Fusion.single .keyword byWords

/-- A search with a filter ranks the chunks that pass it. -/
theorem hits_eq_among (settings : Settings) (store : Store) (mode : SearchMode) (query : String)
    (vector : Option Embedding) (language : Option String) (reach : Nat) :
    hits settings store mode query vector language reach =
      among settings store mode query vector (store.chunks.filter (Store.passes language)) reach := by
  unfold hits among
  simp only [Store.keywordSearch_eq_rank, Store.vectorSearch_eq_rank]
  rfl

theorem among_nil (settings : Settings) (store : Store) (mode : SearchMode) (query : String)
    (vector : Option Embedding) (reach : Nat) : among settings store mode query vector [] reach = [] := by
  have hranking : (Ranked.ranking ([] : List (Ranked Float))).take reach = [] := by
    rw [Ranked.ranking, List.mergeSort_nil, List.take_nil]
  have hfuse : Fusion.fuse settings.search.fusionConstant [] [] = [] := List.mergeSort_nil
  unfold among
  simp only [List.filterMap_nil, hranking, ite_self]
  cases mode with
  | hybrid => cases vector <;> exact hfuse
  | vector => cases vector <;> rfl
  | keyword => rfl

/-- A response shows the best of some chunks of a store. -/
def Shows (x : SearchContext) (facts : BuildFacts) (store : Store) (r : SearchRequest) (cs : List Chunk)
    (response : SearchResponse) : Prop :=
  ∃ query limit vector reach, r.check x.settings = .ok (query, limit) ∧
    queryVector x facts r.mode r.profile query = .ok vector ∧
    window x.settings r.mode limit = .ok reach ∧
    response.results =
      results x store r.output ((among x.settings store r.mode query vector cs reach).take limit)

theorem shows_of_run {x : SearchContext} {generation : Nat} {facts : BuildFacts}
    {store : Except Fault Store} {r : SearchRequest} {response : SearchResponse}
    (h : run x generation facts store r = .ok response) :
    response.generation = generation ∧
      ∃ s, store = .ok s ∧ Shows x facts s r (s.chunks.filter (Store.passes r.language)) response := by
  obtain ⟨query, limit, vector, reach, s, hcheck, hvector, hreach, hs, rfl⟩ := exists_of_run h
  refine ⟨rfl, s, hs, query, limit, vector, reach, hcheck, hvector, hreach, ?_⟩
  rw [hits_eq_among]

end Search

/-- A response shows the best chunks of a generation that are chosen. -/
def Project.ShowsChosen (w : Workspace) (p : Project) (r : SearchRequest) (chosen : Chunk → Bool)
    (response : SearchResponse) : Prop :=
  ∃ (g : Generation) (purpose table : String) (store : Store), response.generation = g.id ∧
    g.reader w.tree purpose table = .ok store ∧ store.Labelled ∧
    Search.Shows { settings := p.settings, model := p.model, source := source w p } g.facts store r
      (store.chunks.filter chosen) response

theorem Project.ShowsChosen.results_eq_nil {r : SearchRequest} {chosen : Chunk → Bool}
    {response : SearchResponse} (h : p.ShowsChosen w r chosen response) (hnone : ∀ c, chosen c = false) :
    response.results = [] := by
  obtain ⟨g, purpose, table, store, -, -, -, query, limit, vector, reach, -, -, -, hresults⟩ := h
  have hchunks : store.chunks.filter chosen = [] :=
    List.filter_eq_nil_iff.mpr fun c _ => by simp [hnone c]
  rw [hresults, hchunks, Search.among_nil, List.take_nil]
  rfl

/-! ## Questions in a run -/

/-- What is answered is answered from a generation that the handle comes to hold. -/
theorem Run.of_ask {α : Type} (h : Run S w p)
    {question : Workspace → Project → Generation → Except Fault α} {a : α}
    (hok : (Project.ask w p question).answer = .ok a) :
    ∃ w' p' g, Run S w' p' ∧ w'.tree = w.tree ∧ p' = { p with current := some g } ∧
      question w' p' g = .ok a := by
  have hlook : ∀ {w : Workspace} {p : Project} {g : Generation}, (p.refresh w).2.current = some g →
      (p.refresh w).2 = { p with current := some g } := by
    intro w p g hg
    rw [Project.refresh_project, hg]
  unfold Project.ask at hok
  dsimp only at hok
  split at hok
  · cases hok
  · rename_i g hg
    split at hok
    · rename_i b hb
      obtain rfl := Except.ok.inj hok
      exact ⟨_, _, g, h.look, Project.refresh_tree w p, hlook hg, hb⟩
    · split at hok
      · -- the file went away: the handle looks again
        split at hok
        · cases hok
        · rename_i g' hg'
          have hhandle := hlook hg'
          rw [hlook hg] at hhandle
          refine ⟨_, _, g', h.look.look, ?_, ?_, hok⟩
          · rw [Project.refresh_tree, Project.refresh_tree]
          · rw [hlook hg]
            exact hhandle
      · cases hok

end SourceIndex
