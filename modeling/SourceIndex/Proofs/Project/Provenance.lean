import Mathlib
import SourceIndex.Proofs.Project.Run

/-! # Where stored vectors come from

Throughout a run, whatever models it is made with and whichever batches fail, the vectors of the
generation in use were given by models of the name that it records, for the texts of their chunks,
and have the dimension that it records (`Run.vectors_current`). So a search by vectors passes over
no chunk that has a vector.
-/

set_option autoImplicit false

namespace SourceIndex

variable {S : Scope} {w : Workspace} {p : Project}

/-! ## Queries -/

namespace Search

variable {x : SearchContext} {facts : BuildFacts} {mode : SearchMode}
  {profile : Option ProfileName} {query : String}

theorem dimensionFor_le {s : Settings} {m : EmbeddingModel} {dimension : Nat}
    (h : dimensionFor s m facts profile = .ok dimension) : dimension ≤ facts.dimension := by
  unfold dimensionFor at h
  split at h
  · obtain rfl := Except.ok.inj h
    exact Nat.le_refl _
  · dsimp only at h
    split at h
    · cases h
    · rename_i hle
      obtain rfl := Except.ok.inj h
      exact Nat.le_of_not_lt hle

theorem length_embedQuery {m : EmbeddingModel} {dimension : Nat} {v : Embedding}
    (h : m.embedQuery dimension query = .answer v) : v.length = min dimension m.dimension := by
  rw [EmbeddingModel.embedQuery] at h
  split at h
  · cases h
  · cases h
  · split at h
    · rename_i hfit
      cases h
      exact Embedding.length_of_fit? hfit
    · cases h

/-- The vector of a query is not longer than those of the index. -/
theorem length_queryVector_le {v : Embedding}
    (h : queryVector x facts mode profile query = .ok (some v)) : v.length ≤ facts.dimension := by
  rw [queryVector] at h
  split at h
  · obtain ⟨m, -, h⟩ := bind_ok_iff.mp h
    obtain ⟨dimension, hdimension, h⟩ := bind_ok_iff.mp h
    split at h
    · rename_i hanswer
      cases h
      rw [length_embedQuery hanswer]
      exact (Nat.min_le_left _ _).trans (dimensionFor_le hdimension)
    · cases h
    · cases h
  · cases h

end Search

/-- Only a shorter vector is passed over. -/
theorem Store.similarity?_isSome {q v : Embedding} {c : Chunk} (h : c.embedding = some v)
    (hle : q.length ≤ v.length) : (similarity? q c).isSome = true := by
  rw [similarity?, h, Option.bind_some, if_neg (Nat.not_lt.mpr hle)]
  rfl

/-! ## Runs -/

/-- The models that a project may be opened with. -/
def Scope.IsModel (S : Scope) (m : EmbeddingModel) : Prop := ∃ settings, S.handle settings (some m)

/-- The vectors of a store are vouched for. -/
def Scope.VouchedStore (S : Scope) (facts : BuildFacts) (store : Store) : Prop :=
  Vouched S.IsModel facts store.chunks

theorem Scope.preserves_vouched (S : Scope) : S.Preserves S.VouchedStore := by
  intro t x o mode base id store built _ hhandle _ _ _ hbase hdraft
  refine Project.draft_vouched (fun m hm => ⟨x.settings, ?_⟩) hbase hdraft
  rw [← hm]
  exact hhandle

/-- Throughout every run, the generation in use has vectors only if it records a model, and each
of them was given by a model of that name for the text of its chunk, at the recorded dimension.
No search by vectors passes over one of them. -/
theorem Run.vectors_current (h : Run S w p) {g : Generation} (hg : p.current = some g)
    {purpose table : String} {store : Store} (hstore : g.reader w.tree purpose table = .ok store) :
    store.facts = some g.facts ∧
      (g.facts.model = none → g.facts.dimension = 0 ∧ ∀ c ∈ store.chunks, c.embedding = none) ∧
      (∀ c ∈ store.chunks, ∀ v, c.embedding = some v → v.length = g.facts.dimension ∧
        ∃ m, S.IsModel m ∧ g.facts.model = some m.name ∧
          m.Gives g.facts.dimension c.embeddingText v) ∧
      ∀ x mode profile query q, Search.queryVector x g.facts mode profile query = .ok (some q) →
        ∀ c ∈ store.chunks, c.embedding.isSome = true → (Store.similarity? q c).isSome = true := by
  obtain ⟨hfacts, hvouched⟩ := (h.invariant S.preserves_vouched).read hg hstore
  refine ⟨hfacts, fun hnone => ⟨hvouched.dimension_zero hnone, fun c hc => ?_⟩,
    fun c hc v hv => ?_, fun x mode profile query q hq c hc hsome => ?_⟩
  · cases hv : c.embedding with
    | none => rfl
    | some v =>
        obtain ⟨m, -, hname, -⟩ := hvouched.given c hc v hv
        rw [hnone] at hname
        cases hname
  · obtain ⟨m, hm, hname, hgives⟩ := hvouched.given c hc v hv
    exact ⟨hgives.length, m, hm, hname, hgives⟩
  · obtain ⟨v, hv⟩ := Option.isSome_iff_exists.mp hsome
    obtain ⟨m, -, -, hgives⟩ := hvouched.given c hc v hv
    refine Store.similarity?_isSome hv ?_
    rw [hgives.length]
    exact Search.length_queryVector_le hq

namespace Project

/-- A model that gives the same vector for every text. -/
def constantModel : EmbeddingModel where
  name := "constant"
  dimension := 1
  documents texts := .answer (texts.map fun _ => [1])
  query _ := .answer [1]

/-- The first build of the small project with that model. -/
def smallEmbedded : Step Built :=
  build smallOpened.1 { small with model := some constantModel } Scope.small.parse .full {}

theorem run_smallEmbedded : Run .small smallEmbedded.workspace smallEmbedded.project := by
  have hchanged : Run .small smallOpened.1 { small with model := some constantModel } :=
    (Run.small rfl rfl).change small_settings
  refine hchanged.build (fun hs hhs => nomatch hhs) ?_
  exact readsWithin_smallOpened (by dsimp only)

end Project

/-- After a build with a model, every chunk has a vector. -/
theorem Run.vectors_smallEmbedded : ∃ (g : Generation) (store : Store),
    Project.smallEmbedded.project.current = some g ∧ g.facts.model = some "constant" ∧
    store.chunks.map (fun c => c.embedding.isSome) = [true] ∧ store.facts = some g.facts ∧
      (g.facts.model = none → g.facts.dimension = 0 ∧ ∀ c ∈ store.chunks, c.embedding = none) ∧
      (∀ c ∈ store.chunks, ∀ v, c.embedding = some v → v.length = g.facts.dimension ∧
        ∃ m, Scope.small.IsModel m ∧ g.facts.model = some m.name ∧
          m.Gives g.facts.dimension c.embeddingText v) ∧
      ∀ x mode profile query q, Search.queryVector x g.facts mode profile query = .ok (some q) →
        ∀ c ∈ store.chunks, c.embedding.isSome = true → (Store.similarity? q c).isSome = true := by
  have hread : (Project.smallEmbedded.project.current.bind fun g =>
      (g.reader Project.smallEmbedded.workspace.tree "" "").toOption.map fun store =>
        (g.facts.model, store.chunks.map fun c => c.embedding.isSome)) =
      some (some "constant", [true]) := by decide +kernel
  obtain ⟨g, hg, hread⟩ := Option.bind_eq_some_iff.mp hread
  obtain ⟨store, hstore, hread⟩ := Option.map_eq_some_iff.mp hread
  obtain ⟨hmodel, hembedded⟩ := Prod.mk.inj hread
  exact ⟨g, store, hg, hmodel, hembedded,
    Run.vectors_current Project.run_smallEmbedded hg (Except.eq_ok_of_toOption hstore)⟩

end SourceIndex
