import Mathlib
import SourceIndex.Command.Run
import SourceIndex.Proofs.Language.Names
import SourceIndex.Proofs.Project.Languages

/-! # Languages in commands

A command accepts a name of a language in any case, with blanks and a version, and other names that people
use for it (`Surroundings.unknownLanguage?`). But files and chunks are chosen by the ids of languages, with
which the name is compared in lower case, as it was typed. So a name selects its language if it is the id
in some case, and otherwise it is accepted and selects nothing (`Invocation.language_selects`).
-/

set_option autoImplicit false

namespace SourceIndex

variable {name : String} {l : Language}

/-! ## What a name selects -/

theorem Surroundings.unknownLanguage?_singleton (name : String) :
    unknownLanguage? [name] = none ↔ ∃ l, Language.ofName? name = some l := by
  cases hname : Language.ofName? name with
  | none => simp [unknownLanguage?, hname]
  | some l => simp [unknownLanguage?, hname]

/-- The files that are kept for an accepted name are those of its language, or none. -/
theorem Listing.sources_of_name (hname : Language.ofName? name = some l) (t : FileTree) (root : Path)
    (o : WalkOptions) :
    sources t root (o.withLanguages (some [name])) =
      (sources t root { o with languages := none }).filter fun file =>
        file.language = l ∧ Text.lowercase name = l.id := by
  have hsources := sources_languages t root o [Text.lowercase name]
  refine Eq.trans hsources (List.filter_congr fun file _ => ?_)
  rw [Bool.eq_iff_iff, List.contains_iff_mem, List.mem_singleton, decide_eq_true_iff, eq_comm]
  exact Language.lowercase_eq_id_iff hname

/-- The chunks that pass the filter for an accepted name are those of its language, or none. -/
theorem Store.Labelled.filter_of_name {s : Store} (h : s.Labelled)
    (hname : Language.ofName? name = some l) :
    s.chunks.filter (passes (some (Text.lowercase name))) =
      s.chunks.filter fun c => c.language = l.id ∧ Text.lowercase name = l.id := by
  refine List.filter_congr fun c hc => ?_
  obtain ⟨l', hl'⟩ := h c hc
  show decide (c.language = Text.lowercase name) = decide _
  rw [decide_eq_decide, hl', eq_comm, Language.lowercase_eq_id_iff hname]
  constructor
  · rintro ⟨rfl, hid⟩
    exact ⟨rfl, hid⟩
  · rintro ⟨hsame, hid⟩
    exact (Language.lowercase_eq_id_iff hname).mp (hid.trans hsame.symm)

/-! ## Commands -/

namespace Invocation

variable {S : Scope} {x : Surroundings} {w w' : Workspace} {p : Project} {i : Invocation} {root : Path}

/-- A command whose names are accepted is run on its project. -/
theorem run_eq_runIn (hroot : root? i.command = some root)
    (haccept : Surroundings.unknownLanguage? (languages i.command) = none)
    (hopen : x.openProject w i.settings root = (w', .ok p)) : i.run x w = i.runIn x w' p := by
  unfold run
  simp only [hroot, haccept, hopen]

/-- A response that a command answers is that of the search. -/
theorem found_of_conclude {step : Project.Step SearchResponse} {response : SearchResponse}
    (h : (Surroundings.conclude step .found).2 = .ok (.found response)) :
    step.answer = .ok response := by
  unfold Surroundings.conclude at h
  dsimp only at h
  split at h
  · rename_i found hfound
    cases h
    exact hfound
  · cases h

/-- A full build with one accepted name yields the files of its language, or none. -/
theorem files_of_name (hrun : Run S w p) (hname : Language.ofName? name = some l) {parse : Chunk.Parse}
    {o : BuildOptions} (ho : o.languages = some [name]) {store : Store}
    (hyields : (p.build w parse .full o).Yields store) :
    (store.files.map fun f => (f.path, f.language)).Perm
      (((p.allSources w).filter fun file => file.language = l ∧ Text.lowercase name = l.id).map
        fun file => (file.path, file.language.id)) := by
  have hprepares := hrun.inOrder.prepares
  obtain ⟨-, id, -, built, hdraft⟩ := (Project.full_yields_iff hprepares store).mp hyields
  have hwalk : (p.context parse).walk o none =
      (WalkOptions.ofSettings p.settings.index).withLanguages (some [name]) := by
    show (WalkOptions.ofSettings p.settings.index).withLanguages o.languages = _
    rw [ho]
  have hfiles := Project.files_of_draft hprepares.wellFormed hdraft
  rw [hwalk, Listing.sources_of_name hname] at hfiles
  exact hfiles

/-- A search with one accepted name shows the best chunks of its language, or none. -/
theorem shows_of_name (hrun : Run S w p) (hname : Language.ofName? name = some l) {r : SearchRequest}
    (hr : r.language = some (Text.lowercase name)) {response : SearchResponse}
    (hok : (p.search w r).answer = .ok response) :
    p.ShowsChosen w r (fun c => c.language = l.id ∧ Text.lowercase name = l.id) response := by
  obtain ⟨w', p', g, hrun', htree, rfl, hanswer⟩ := hrun.of_ask hok
  have hsource : Project.source w' { p with current := some g } = Project.source w p := by
    unfold Project.source
    rw [htree]
  unfold Project.searchIn at hanswer
  rw [hsource] at hanswer
  obtain ⟨hgeneration, store, hstore, hshows⟩ := Search.shows_of_run hanswer
  obtain ⟨purpose, table, hread⟩ : ∃ purpose table, g.reader w'.tree purpose table = .ok store := by
    split at hstore
    · exact ⟨_, _, hstore⟩
    · exact ⟨_, _, hstore⟩
  have hlabelled := hrun'.labelled rfl hread
  rw [hr, hlabelled.filter_of_name hname] at hshows
  rw [htree] at hread
  exact ⟨g, purpose, table, store, hgeneration, hread, hlabelled, hshows⟩

/-- A name that is accepted but is not the id of its language in lower case selects nothing. -/
theorem nothing_of_name (hrun : Run S w p) (hname : Language.ofName? name = some l)
    (hne : Text.lowercase name ≠ l.id) :
    (∀ parse o store, o.languages = some [name] → (p.build w parse .full o).Yields store →
        store.files = []) ∧
      ∀ r response, r.language = some (Text.lowercase name) → (p.search w r).answer = .ok response →
        response.results = [] := by
  constructor
  · intro parse o store ho hyields
    have hfiles := files_of_name hrun hname ho hyields
    have hnone : (p.allSources w).filter
        (fun file => file.language = l ∧ Text.lowercase name = l.id) = [] :=
      List.filter_eq_nil_iff.mpr fun file _ => by simp [hne]
    rw [hnone] at hfiles
    exact List.map_eq_nil_iff.mp hfiles.eq_nil
  · intro r response hr hok
    exact (shows_of_name hrun hname hr hok).results_eq_nil fun c => by simp [hne]

/-- The commands `index` and `search` on a project of a run, with one name that they accept. The name
stands for a language. The index has exactly the files of this language that an index of all languages
would have, and the search ranks exactly the chunks of this language, if the name in lower case is the id
of the language. Otherwise the index has no files at all, and the search ranks no chunks. -/
theorem language_selects (hrun : Run S w' p) (hroot : root? i.command = some root)
    (hopen : x.openProject w i.settings root = (w', .ok p)) (hone : languages i.command = [name])
    (haccept : Surroundings.unknownLanguage? [name] = none) :
    ∃ l, Language.ofName? name = some l ∧
      (∀ profile names, i.command = .index root profile names →
        let step := p.build w' x.parse .full { profile, languages := some [name], now := x.now }
        i.run x w = Surroundings.conclude step (fun built => .built built.report) ∧
          ∀ store, step.Yields store → (store.files.map fun f => (f.path, f.language)).Perm
            (((p.allSources w').filter fun file =>
                file.language = l ∧ Text.lowercase name = l.id).map fun file =>
              (file.path, file.language.id))) ∧
      ∀ o response, i.command = .search root o → (i.run x w).2 = .ok (.found response) →
        p.ShowsChosen w' (Surroundings.request p.settings o)
          (fun c => c.language = l.id ∧ Text.lowercase name = l.id) response := by
  have hrunIn : i.run x w = i.runIn x w' p := by
    refine run_eq_runIn hroot ?_ hopen
    rw [hone]
    exact haccept
  obtain ⟨l, hname⟩ := (Surroundings.unknownLanguage?_singleton name).mp haccept
  refine ⟨l, hname, fun profile names hi => ?_, fun o response hi hok => ?_⟩
  · obtain rfl : names = [name] := by
      rw [hi] at hone
      exact hone
    refine ⟨?_, fun store hyields => files_of_name hrun hname rfl hyields⟩
    rw [hrunIn]
    unfold runIn
    rw [hi]
    rfl
  · have ho : o.language = some name := by
      rw [hi] at hone
      exact Option.toList_eq_singleton_iff.mp hone
    rw [hrunIn] at hok
    unfold runIn at hok
    rw [hi] at hok
    have hanswer := found_of_conclude hok
    refine shows_of_name hrun hname ?_ hanswer
    show o.language.map Text.lowercase = _
    rw [ho]
    rfl

/-! ### A small project -/

/-- An index of one language in the small project. -/
def smallIndex (name : String) : Invocation := { command := .index ⟨"p"⟩ .auto [name] }

/-- The report that a command answers. -/
def report? : Except Refusal Answer → Option BuildReport
  | .ok (.built report) => some report
  | _ => none

end Invocation

/-- The directory above the small project, without a model. -/
def Surroundings.small : Surroundings where
  here := ⟨"/"⟩
  environment _ := none
  exchange _ := .refused
  parse := Scope.small.parse
  now := 0

theorem Surroundings.openProject_small :
    Surroundings.small.openProject .small none ⟨"p"⟩ = (Project.smallOpened.1, .ok Project.small) := by
  have hjoin : Surroundings.small.here.join ⟨"p"⟩ = ⟨"/p"⟩ := by decide +kernel
  have hnone : Workspace.small.tree.holds ((⟨"/p"⟩ : Path).join ⟨Settings.fileName⟩) = false := by
    decide +kernel
  have hsettings : Surroundings.small.settingsFor Workspace.small.tree none ⟨"p"⟩ = .ok {} := by
    unfold settingsFor
    dsimp only
    rw [hjoin, hnone]
    rfl
  unfold openProject
  rw [hsettings]
  show Project.openAt _ _ _ _ = _
  rw [hjoin]
  exact Project.smallOpened_eq

namespace Invocation

/-- The id of a language selects it in any case. -/
theorem language_selects_smallIndex :
    Run .small Project.smallOpened.1 Project.small ∧
      Surroundings.unknownLanguage? ["Markdown"] = none ∧
      ∀ store, (Project.build Project.smallOpened.1 Project.small Scope.small.parse .full
          { profile := .auto, languages := some ["Markdown"], now := 0 }).Yields store →
        (store.files.map fun f => (f.path, f.language)).Perm [(⟨"a.md"⟩, "markdown")] := by
  have hrun : Run .small Project.smallOpened.1 Project.small := Run.small rfl rfl
  have haccept : Surroundings.unknownLanguage? ["Markdown"] = none := by decide
  refine ⟨hrun, haccept, fun store hyields => ?_⟩
  obtain ⟨l, hname, hindex, -⟩ := language_selects (i := smallIndex "Markdown") hrun rfl
    Surroundings.openProject_small rfl haccept
  have hmarkdown : Language.ofName? "Markdown" = some .markdown := by decide
  obtain rfl : .markdown = l := Option.some.inj (hmarkdown.symm.trans hname)
  have hkept : ((Project.small.allSources Project.smallOpened.1).filter fun file =>
        file.language = .markdown ∧ Text.lowercase "Markdown" = Language.markdown.id).map
          (fun file => (file.path, file.language.id)) = [(⟨"a.md"⟩, "markdown")] := by
    decide +kernel
  rw [← hkept]
  exact (hindex .auto ["Markdown"] rfl).2 store hyields

/-- The name `md` stands for Markdown and is accepted. The only file of the small project is of this
language, and an index of `md` has no files. -/
theorem smallIndex_md :
    Language.ofName? "md" = some .markdown ∧ Surroundings.unknownLanguage? ["md"] = none ∧
      (Project.small.allSources Project.smallOpened.1).map (fun file => (file.path, file.language)) =
        [(⟨"a.md"⟩, .markdown)] ∧
      (report? ((smallIndex "md").run .small .small).2).map (fun report => (report.files, report.chunks)) =
        some (0, 0) :=
  ⟨by decide, by decide, by decide +kernel, by decide +kernel⟩

end Invocation

end SourceIndex
