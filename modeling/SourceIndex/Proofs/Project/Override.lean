import Mathlib
import SourceIndex.Proofs.Project.Answers
import SourceIndex.Proofs.Search.Response

/-! # Searching with the profile of a build

A search may name a profile, to be made at the dimension of that profile and not at that of the index.
A build resolves the name by the size of the project, a search resolves it as for a project of no files
(`Search.asked`). A name that means one profile, whatever the size, means the same to both
(`Search.resolve_eq_asked`). The name `auto` need not: to the search it is the medium profile, to a
build of a large project the large one.

So after a full build with any profile it is known what becomes of the searches that name the same one
(`Project.search_override`).
-/

set_option autoImplicit false

namespace SourceIndex

open IndexDirectory

-- names of files are not to be computed
attribute [local irreducible] nameOf journalName removeStore Project.buildLocked

/-! ## The dimension that is asked for -/

namespace Search

/-- The dimension that a search asks for with a profile: that of the profile for no files. -/
def asked (settings : Settings) (m : EmbeddingModel) (profile : ProfileName) : Nat :=
  (Profile.resolve profile 0 0 settings.profiles m.dimension).dimension

variable {settings : Settings} {m : EmbeddingModel} {profile : ProfileName}

theorem asked_le : asked settings m profile ≤ m.dimension := Nat.min_le_right _ _

/-- A build asks for the same dimension if the profile is the same to it, whatever the size. -/
theorem resolve_eq_asked {files bytes : Nat}
    (h : profile = .auto → Profile.nameFor .auto files bytes settings.profiles =
      Profile.nameFor .auto 0 0 settings.profiles) :
    (Profile.resolve profile files bytes settings.profiles m.dimension).dimension =
      asked settings m profile := by
  unfold asked Profile.resolve
  cases profile with
  | auto => rw [h rfl]
  | medium => rfl
  | large => rfl

/-! ## One search -/

/-- The dimensions that an answer was refused for: that of the index and a larger one. -/
def refused? {α : Type} (answer : Except Fault α) : Option (Nat × Nat) :=
  match answer with
  | .error (.dimensionMismatch index requested) => some (index, requested)
  | _ => none

theorem refused_error {α : Type} (f : Fault) (β : Type) :
    refused? (.error f : Except Fault α) = refused? (.error f : Except Fault β) := by
  cases f <;> rfl

theorem refused_bind {α β : Type} {a : Except Fault α} {f : α → Except Fault β}
    (h : ∀ c, a = .ok c → refused? (f c) = none) : refused? (a >>= f) = refused? a := by
  cases a with
  | error e => exact refused_error e α
  | ok c => exact h c rfl

section Run

variable {x : SearchContext} {facts : BuildFacts} {r : SearchRequest}

/-- The vector of a query with a profile: a larger dimension than that of the index is refused, and the
model is asked only then. -/
theorem Usable.queryVector_eq (h : Usable x facts m) {mode : SearchMode}
    (hmode : mode.needsVectors = true) (profile : ProfileName) (query : String) :
    queryVector x facts mode (some profile) query =
      if facts.dimension < asked x.settings m profile then
        .error (.dimensionMismatch facts.dimension (asked x.settings m profile))
      else
        match m.embedQuery (asked x.settings m profile) query with
        | .answer v => .ok (some v)
        | .failure f => .error (unavailable mode f.message)
        | .silence => .error (.timedOut .search) := by
  have hdimension : dimensionFor x.settings m facts (some profile) =
      if facts.dimension < asked x.settings m profile then
        .error (.dimensionMismatch facts.dimension (asked x.settings m profile))
      else .ok (asked x.settings m profile) := rfl
  unfold queryVector
  rw [if_pos hmode, h.usableModel mode]
  show (dimensionFor x.settings m facts (some profile) >>= _) = _
  rw [hdimension]
  by_cases hlt : facts.dimension < asked x.settings m profile
  · rw [if_pos hlt, if_pos hlt]
    rfl
  · rw [if_neg hlt, if_neg hlt]
    show (match m.embedQuery (asked x.settings m profile) query with
      | .answer v => Except.ok (some v)
      | .failure f => .error (unavailable mode f.message)
      | .silence => .error (.timedOut .search)) = _
    rfl

/-- A vector that a query has with a profile is of the dimension of the profile. -/
theorem Usable.length_of_queryVector (h : Usable x facts m) {mode : SearchMode}
    (hmode : mode.needsVectors = true) {query : String} {vector : Option Embedding}
    (hvector : queryVector x facts mode (some profile) query = .ok vector) :
    (vector.map List.length).getD 0 = asked x.settings m profile := by
  rw [h.queryVector_eq hmode] at hvector
  split at hvector
  · cases hvector
  · split at hvector
    · rename_i v hanswer
      obtain rfl := Except.ok.inj hvector
      show v.length = _
      rw [length_embedQuery hanswer, Nat.min_eq_left asked_le]
    · cases hvector
    · cases hvector

theorem Usable.refused_queryVector (h : Usable x facts m) {mode : SearchMode}
    (hmode : mode.needsVectors = true) (query : String) :
    refused? (queryVector x facts mode (some profile) query) =
      if facts.dimension < asked x.settings m profile then
        some (facts.dimension, asked x.settings m profile)
      else none := by
  rw [h.queryVector_eq hmode]
  by_cases hlt : facts.dimension < asked x.settings m profile
  · rw [if_pos hlt, if_pos hlt]
    rfl
  · rw [if_neg hlt, if_neg hlt]
    cases m.embedQuery (asked x.settings m profile) query <;> rfl

theorem refused_check (r : SearchRequest) (settings : Settings) : refused? (r.check settings) = none := by
  unfold SearchRequest.check
  dsimp only
  split
  · rfl
  · split
    · rfl
    · split
      · rfl
      · rfl

theorem refused_window (settings : Settings) (mode : SearchMode) (limit : Nat) :
    refused? (window settings mode limit) = none := by
  cases mode with
  | hybrid =>
      unfold window
      dsimp only
      split <;> rfl
  | vector => rfl
  | keyword => rfl

/-- Of all that a search can fail with, only the vector of its query is refused for a dimension. -/
theorem refused_run {generation : Nat} {store : Except Fault Store} (hstore : refused? store = none) :
    refused? (run x generation facts store r) =
      match r.check x.settings with
      | .ok (query, _) => refused? (queryVector x facts r.mode r.profile query)
      | .error _ => none := by
  unfold run
  cases hcheck : r.check x.settings with
  | error f =>
      have hnone := refused_check r x.settings
      rw [hcheck, refused_error f SearchResponse] at hnone
      exact hnone
  | ok c =>
      obtain ⟨query, limit⟩ := c
      show refused? (queryVector x facts r.mode r.profile query >>= _) = _
      apply refused_bind
      intro vector _
      rw [refused_bind, refused_window]
      intro reach _
      rw [refused_bind, hstore]
      intro s _
      rfl

/-- A search that names a profile is refused for its dimension exactly if it is a proper request and the
profile has a larger dimension than the index. -/
theorem Usable.refused_eq (h : Usable x facts m) (hmode : r.mode.needsVectors = true)
    (hprofile : r.profile = some profile) {generation : Nat} {store : Except Fault Store}
    (hstore : refused? store = none) :
    refused? (run x generation facts store r) =
      if (r.check x.settings).isOk = true ∧ facts.dimension < asked x.settings m profile then
        some (facts.dimension, asked x.settings m profile)
      else none := by
  rw [refused_run hstore, hprofile]
  cases r.check x.settings with
  | error f => simp [Except.isOk, Except.toBool]
  | ok c => simp [Except.isOk, Except.toBool, h.refused_queryVector hmode]

/-- A response to a search that names a profile is of the dimension of the profile. -/
theorem Usable.dimension_eq (h : Usable x facts m) (hmode : r.mode.needsVectors = true)
    (hprofile : r.profile = some profile) {generation : Nat} {store : Except Fault Store}
    {response : SearchResponse} (hrun : run x generation facts store r = .ok response) :
    response.dimension = asked x.settings m profile := by
  obtain ⟨query, limit, vector, reach, s, -, hvector, -, -, rfl⟩ := exists_of_run hrun
  rw [hprofile] at hvector
  exact h.length_of_queryVector hmode hvector

end Run

end Search

/-! ## Searches after a build -/

namespace Project

variable {home : List String} {w : Workspace} {p : Project} {parse : Chunk.Parse}
  {mode : BuildMode} {o : BuildOptions} {id : Nat} {store : Store} {built : Built}

theorem refused_reader (g : Generation) (t : FileTree) (purpose table : String) :
    Search.refused? (g.reader t purpose table) = none := by
  unfold Generation.reader openStore
  dsimp only
  split
  · rfl
  · split
    · rfl
    · split <;> rfl
    · rfl

/-- What a build from nothing records of its profile, if it has vectors. -/
theorem profile_of_draft {t : FileTree} {x : BuildContext}
    (h : draft t x o mode none id = .ok (store, built)) (hdim : 0 < built.report.dimension) :
    ∃ facts m files bytes, store.facts = some facts ∧ facts.dimension = built.report.dimension ∧
      x.model = some m ∧ facts.model = some m.name ∧
      built.report.profile = Profile.nameFor o.profile files bytes x.settings.profiles ∧
      built.report.dimension =
        (Profile.resolve o.profile files bytes x.settings.profiles m.dimension).dimension := by
  obtain ⟨p, q, hmake, hcomplete, hstore, -, rfl⟩ := draft_ok_iff.mp h
  obtain ⟨plan, -, -, -, -, rfl⟩ := (Prepared.make_ok_iff _ p).mp hmake
  obtain ⟨hq, -⟩ := Prepared.complete_spec hcomplete
  have hfacts := (chunks_of_storeOf hstore).2
  cases hmodel : q.modelFor x with
  | none =>
      -- without a model nothing has a vector
      have hzero : (q.facts x o id).dimension = 0 := by simp [Prepared.facts, hmodel]
      exact absurd hdim (Nat.not_lt.mpr hzero.le)
  | some m =>
      have hm : x.model = some m := by
        unfold Prepared.modelFor at hmodel
        split at hmodel
        · exact hmodel
        · cases hmodel
      have hdimension : (q.facts x o id).dimension = q.dimension := by simp [Prepared.facts, hmodel]
      have hname : (q.facts x o id).model = some m.name := by simp [Prepared.facts, hmodel]
      have hnative : x.nativeDimension = m.dimension := by rw [BuildContext.nativeDimension, hm]
      let changed := (x.sorting t o none plan).changed
      refine ⟨_, m, changed.length, changed.foldl (fun bytes file => bytes + file.size) 0, hfacts, rfl,
        hm, hname, ?_, ?_⟩
      · show q.profile.name = _
        rw [hq]
        rfl
      · show (q.facts x o id).dimension = _
        rw [hdimension, hq, ← hnative]
        rfl

/-- A handle answers from a generation: it holds that one, and no other is in use. -/
structure HoldsCurrent (w : Workspace) (p : Project) (g : Generation) : Prop where
  current : p.current = some g
  pointer : p.directory.readCurrent w.tree = .ok (some g.id)

theorem HoldsCurrent.search_eq {g : Generation} (h : HoldsCurrent w p g) (r : SearchRequest) :
    (search w p r).answer = searchIn r w p g := by
  rw [search, ask_eq h.current h.pointer]

/-- Looking for a newer generation leaves settings and model alone. -/
theorem settings_started (w : Workspace) (p : Project) :
    (started w p).2.settings = p.settings ∧ (started w p).2.model = p.model := by
  unfold started
  rw [refresh_project]
  exact ⟨rfl, rfl⟩

/-- A full build that succeeds leaves the handle on the new generation, which records what was
drafted. -/
theorem exists_holds (h : Prepares home w p) (hok : (build w p parse .full o).answer = .ok built) :
    ∃ g store, HoldsCurrent (build w p parse .full o).workspace (build w p parse .full o).project g ∧
      (build w p parse .full o).project.settings = p.settings ∧
      (build w p parse .full o).project.model = p.model ∧ store.facts = some g.facts ∧
        draft (seen w p) (p.context parse) o .full none g.id = .ok (store, built) := by
  obtain ⟨hwf, hlies, hpath, hends⟩ := h.ends parse .full o
  have hfree := lock_of_build_ok hok
  rw [build_of_locked hfree] at hok ⊢
  have hpointer := (hends.serves_iff hwf hlies hpath hok (Workspace.unlock_tree _ p.directory)).1
  dsimp only at hok ⊢
  generalize buildLocked (w.lock p.directory).1 p parse .full o = step at hends hok hpointer ⊢
  cases hends with
  | unwritten _ => cases hok
  | removed _ _ => cases hok
  | @done id store _ t facts hmakes hfacts _ =>
      obtain rfl := Except.ok.inj hok
      obtain ⟨base, hbase, hdraft⟩ := hmakes.drafted
      rw [baseOf_full] at hbase
      obtain rfl := Except.ok.inj hbase
      rw [started_tree, started_context] at hdraft
      rw [hmakes.generation] at hpointer
      obtain ⟨hsettings, hmodel⟩ := settings_started w p
      exact ⟨opened (started w p).1 (started w p).2 id facts, store, ⟨rfl, hpointer⟩, hsettings, hmodel,
        hfacts, hdraft⟩

/-- After a full build that made vectors, searches that name its profile, through any handle on the new
generation with the same settings and model: such a search is refused for its dimension exactly if it
is a proper request and the profile has a larger dimension for no files than it had for the build, and
a response is of the dimension for no files. That is the dimension of the index for a profile that is
named, and for `auto` if no files and the files that were built count for the same profile. -/
theorem search_override (h : Prepares home w p) (hok : (build w p parse .full o).answer = .ok built)
    (hdim : 0 < built.report.dimension) :
    ∃ g m, HoldsCurrent (build w p parse .full o).workspace (build w p parse .full o).project g ∧
      (build w p parse .full o).project.settings = p.settings ∧
      (build w p parse .full o).project.model = p.model ∧ p.model = some m ∧
      ((o.profile = .auto →
          built.report.profile = Profile.nameFor .auto 0 0 p.settings.profiles) →
        Search.asked p.settings m o.profile = built.report.dimension) ∧
      ∀ w' q r, HoldsCurrent w' q g → q.settings = p.settings → q.model = p.model →
        r.mode.needsVectors = true → r.profile = some o.profile →
          Search.refused? (search w' q r).answer =
            (if (r.check p.settings).isOk = true ∧
                built.report.dimension < Search.asked p.settings m o.profile then
              some (built.report.dimension, Search.asked p.settings m o.profile)
            else none) ∧
          ∀ response, (search w' q r).answer = .ok response →
            response.dimension = Search.asked p.settings m o.profile := by
  obtain ⟨g, store, hholds, hsettings', hmodel', hfacts, hdraft⟩ := exists_holds h hok
  obtain ⟨facts, m, files, bytes, hfacts', hdimension, hmodel, hname, hprofile, hresolved⟩ :=
    profile_of_draft hdraft hdim
  obtain rfl : g.facts = facts := Option.some.inj (hfacts.symm.trans hfacts')
  refine ⟨g, m, hholds, hsettings', hmodel', hmodel, fun hsame => ?_, ?_⟩
  · rw [hresolved]
    refine (Search.resolve_eq_asked fun hauto => ?_).symm
    rw [← hsame hauto, hprofile, hauto]
    rfl
  · intro w' q r hq hsettings hqmodel hmode hr
    have husable : Search.Usable { settings := q.settings, model := q.model, source := source w' q }
        g.facts m :=
      ⟨hqmodel.trans hmodel, hname, hdimension ▸ hdim⟩
    rw [hq.search_eq, ← hsettings, ← hdimension]
    constructor
    · apply husable.refused_eq hmode hr
      rw [hmode, if_pos rfl]
      exact refused_reader _ _ _ _
    · intro response hresponse
      exact husable.dimension_eq hmode hr hresponse

/-! ### A small project -/

/-- The small project, opened with a model. -/
def smallModelled : Project := { small with model := some constantModel }

/-- Its first build, with the large profile. -/
def smallLarge : Step Built :=
  build smallOpened.1 smallModelled Scope.small.parse .full { profile := .large }

/-- Settings and model do not matter to where a build starts, if there is nothing yet. -/
theorem Prepares.of_directory {q : Project} (h : Prepares home w p) (hdirectory : q.directory = p.directory)
    (hnone : (started w q).2.current.isNone = true) : Prepares home w q := by
  have hseen : seen w q = seen w p := by
    unfold seen
    rw [hdirectory]
  refine ⟨?_, ?_, fun g hg => ?_⟩
  · rw [hseen]
    exact h.wellFormed
  · rw [hseen, hdirectory]
    exact h.lies
  · rw [hg] at hnone
    cases hnone

theorem prepares_smallModelled : Prepares Scope.small.home smallOpened.1 smallModelled := by
  have hrun : Run .small smallOpened.1 smallModelled := (Run.small rfl rfl).change small_settings
  exact hrun.inOrder.prepares

/-- After that build no search with the large profile is refused for its dimension. -/
theorem search_override_smallLarge : Prepares Scope.small.home smallOpened.1 smallModelled ∧
    ∃ built, smallLarge.answer = .ok built ∧ 0 < built.report.dimension ∧
      ∀ r : SearchRequest, r.mode.needsVectors = true → r.profile = some .large →
        Search.refused? (search smallLarge.workspace smallLarge.project r).answer = none := by
  have hbuilt : smallLarge.answer.toOption.map (fun built => built.report.dimension) = some 1 := by
    decide +kernel
  obtain ⟨built, hok, hone⟩ := Option.map_eq_some_iff.mp hbuilt
  have hok := Except.eq_ok_of_toOption hok
  have hdim : 0 < built.report.dimension := by rw [hone]; exact Nat.one_pos
  refine ⟨prepares_smallModelled, built, hok, hdim, fun r hmode hprofile => ?_⟩
  obtain ⟨g, m, hholds, hsettings, hmodel, -, hasked, hsearch⟩ :=
    search_override prepares_smallModelled hok hdim
  have hrefused := (hsearch _ _ r hholds hsettings hmodel hmode hprofile).1
  rw [hasked nofun, if_neg fun hlt => Nat.lt_irrefl _ hlt.2] at hrefused
  exact hrefused

/-- A model of two dimensions. -/
def planeModel : EmbeddingModel where
  name := "plane"
  dimension := 2
  documents texts := .answer (texts.map fun _ => [1, 1])
  query _ := .answer [1, 1]

/-- A project of one file counts as large, and the large profile has one dimension. -/
def largeAtOne : Settings where
  profiles := { autoLargeFiles := 1, large := ⟨⟨240, 5, 80, 8⟩, some 1⟩ }

/-- The small project with that model and these settings. -/
def smallPlane : Project := { small with settings := largeAtOne, model := some planeModel }

/-- Its first build, with the profile that fits its size. -/
def smallAuto : Step Built := build smallOpened.1 smallPlane Scope.small.parse .full { profile := .auto }

theorem prepares_smallPlane : Prepares Scope.small.home smallOpened.1 smallPlane := by
  have hnone : (started smallOpened.1 smallPlane).2.current.isNone = true := by decide +kernel
  exact prepares_smallModelled.of_directory rfl hnone

/-- The build takes the large profile. A search with the same `auto` takes the medium one, and is refused
for its dimension. -/
theorem refused_smallAuto : Prepares Scope.small.home smallOpened.1 smallPlane ∧
    smallAuto.answer.toOption.map (fun built => (built.report.profile, built.report.dimension)) =
      some (.large, 1) ∧
    Search.refused? (search smallAuto.workspace smallAuto.project
      { query := "one", mode := .vector, profile := some .auto, output := .ofSettings {} }).answer =
        some (1, 2) := by
  refine ⟨prepares_smallPlane, by decide +kernel, by decide +kernel⟩

end Project

end SourceIndex
