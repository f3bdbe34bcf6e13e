import Mathlib
import SourceIndex.Proofs.Generation.Number
import SourceIndex.Proofs.Project.Freshness
import SourceIndex.Proofs.Project.Yield

/-! # Incremental builds agree with full ones

A build without hints that starts from the generation in use yields the same index as a full build
with the profile and the languages of that generation would, if every file that is listed can be
read (`Run.sync_agrees`).
-/

set_option autoImplicit false

namespace SourceIndex

/-- Two stores have the same records, and the same chunks but for vectors. -/
def Store.SameIndex (s s' : Store) : Prop :=
  s.files.Perm s'.files ∧ (s.chunks.map Chunk.bare).Perm (s'.chunks.map Chunk.bare)

/-- Every file that is listed can be read. -/
def Listing.Legible (t : FileTree) (root : Path) (o : WalkOptions) : Prop :=
  ∀ listed, files t root o = .ok listed → ∀ p ∈ listed, ∀ obstacle,
    readSource t root p o ≠ .error obstacle

/-- Whether every file that is listed can be read. -/
def Listing.isLegible (t : FileTree) (root : Path) (o : WalkOptions) : Bool :=
  match files t root o with
  | .ok listed => listed.all fun p => (readSource t root p o).isOk
  | .error _ => true

theorem Listing.legible_of_isLegible {t : FileTree} {root : Path} {o : WalkOptions}
    (h : isLegible t root o = true) : Legible t root o := by
  intro listed hlisted p hp obstacle herror
  rw [isLegible, hlisted] at h
  have hok := List.all_eq_true.mp h p hp
  rw [herror] at hok
  cases hok

/-- The options of a full build with the profile and the languages of a generation. -/
def BuildFacts.options (facts : BuildFacts) (o : BuildOptions) : BuildOptions :=
  { o with profile := facts.profile.name, languages := facts.languages }

variable {t : FileTree} {x : BuildContext} {o : BuildOptions} {mode : BuildMode}
  {base : Option BuildBase} {texts : Set String}

/-! ## What is recorded -/

/-- If every file that is listed can be read, what they hold is recorded and nothing else. -/
theorem BuildContext.Ready.mem_files_of_legible {listed : List Path}
    (h : x.Ready t o base texts ⟨listed, .empty⟩)
    (hlisted : Listing.files t x.root (x.walk o base) = .ok listed)
    (hlegible : Listing.Legible t x.root (x.walk o base)) (p : Path) (hash : String) :
    (∃ f ∈ (Prepared.ofSorting x o base (x.sorting t o base ⟨listed, .empty⟩)).files,
        f.path = p ∧ f.contentHash = hash) ↔
      p ∈ listed ∧ ∃ file, Listing.readSource t x.root p (x.walk o base) = .ok (some file) ∧
        file.contentHash = hash := by
  rw [h.mem_files_iff]
  constructor
  · rintro (hread | ⟨hcarry | ⟨hp, hfails⟩, -⟩)
    · exact hread
    · simp [PathMap.empty, PathMap.keys] at hcarry
    · cases hresult : Listing.readSource t x.root p (x.walk o base) with
      | ok file? => simp [readingOf, Sorting.fails, hresult] at hfails
      | error obstacle => exact absurd hresult (hlegible listed hlisted p hp obstacle)
  · exact Or.inl

theorem failed_of_legible {listed : List Path}
    (hlisted : Listing.files t x.root (x.walk o base) = .ok listed)
    (hlegible : Listing.Legible t x.root (x.walk o base)) :
    (x.sorting t o base ⟨listed, .empty⟩).failed = 0 := by
  rw [BuildContext.sorting, Sorting.failed_ofReadings, List.countP_eq_zero]
  intro r hr
  obtain ⟨p, hp, rfl⟩ := List.mem_map.mp hr
  cases hresult : Listing.readSource t x.root p (x.walk o base) with
  | ok file? => simp [BuildContext.readingOf, Sorting.fails, hresult]
  | error obstacle => exact absurd hresult (hlegible listed hlisted p hp obstacle)

/-! ## The same drafts -/

/-- Chunks that are the same but for vectors have the same ids. -/
theorem Store.SameIndex.nodup_iff {cs cs' : List Chunk}
    (h : (cs.map Chunk.bare).Perm (cs'.map Chunk.bare)) :
    (cs.map Chunk.id).Nodup ↔ (cs'.map Chunk.id).Nodup := by
  have hids := h.map Chunk.id
  rw [Chunk.map_id_map_bare, Chunk.map_id_map_bare] at hids
  exact hids.nodup_iff

/-- A profile is resolved: its name says which of the parameters that are set it has. -/
def Profile.IsResolved (settings : Settings) (profile : Profile) : Prop :=
  profile.name ≠ .auto ∧ profile.params = paramsOf profile.name settings.profiles

theorem Profile.isResolved_resolve (requested : ProfileName) (files bytes : Nat)
    (settings : Settings) (native : Nat) :
    (resolve requested files bytes settings.profiles native).IsResolved settings := by
  refine ⟨?_, rfl⟩
  show nameFor requested files bytes settings.profiles ≠ .auto
  unfold nameFor
  cases requested with
  | auto =>
      dsimp only
      split <;> simp
  | medium => simp
  | large => simp

theorem Profile.params_resolve {settings : Settings} {profile : Profile}
    (h : profile.IsResolved settings) (files bytes native : Nat) :
    (resolve profile.name files bytes settings.profiles native).params = profile.params := by
  rw [h.2]
  show paramsOf (nameFor profile.name files bytes settings.profiles) settings.profiles = _
  congr 1
  unfold nameFor
  cases hname : profile.name with
  | auto => exact absurd hname h.1
  | medium => rfl
  | large => rfl

namespace Project

variable {b : BuildBase}

/-- A full build can draft what an incremental one can. -/
theorem Draftable.full (h : Draftable texts t x mode base) : Draftable texts t x .full none where
  wellFormed := h.wellFormed
  fresh _ hb := nomatch hb
  within := h.within
  inj _ hb := by cases hb
  hints _ hhs := nomatch hhs

theorem Draftable.ready_listed (h : Draftable texts t x mode base) (hmode : hintsOf mode = none)
    {listed : List Path} (hlisted : Listing.files t x.root (x.walk o base) = .ok listed) :
    x.Ready t o base texts ⟨listed, .empty⟩ := by
  have hhints : hintsFor mode base = none := by
    rw [hintsFor, hmode]
    exact ite_self _
  refine h.ready ?_
  rw [hhints]
  exact ReadPlan.make_unhinted_iff.mpr ⟨listed, hlisted, rfl⟩

/-- What is put together from all files is the same, whether earlier files are carried over or
not. -/
theorem Draftable.perm_ofSorting (h : Draftable texts t x (.incremental none) (some b))
    (hresolved : b.facts.profile.IsResolved x.settings) {listed : List Path}
    (hlisted : Listing.files t x.root (x.walk o (some b)) = .ok listed)
    (hlegible : Listing.Legible t x.root (x.walk o (some b))) :
    (Prepared.ofSorting x o (some b) (x.sorting t o (some b) ⟨listed, .empty⟩)).files.Perm
        (Prepared.ofSorting x (b.facts.options o) none
          (x.sorting t (b.facts.options o) none ⟨listed, .empty⟩)).files ∧
      ((Prepared.ofSorting x o (some b) (x.sorting t o (some b) ⟨listed, .empty⟩)).chunks.map
          Chunk.bare).Perm
        ((Prepared.ofSorting x (b.facts.options o) none
          (x.sorting t (b.facts.options o) none ⟨listed, .empty⟩)).chunks.map Chunk.bare) := by
  have hlisted' : Listing.files t x.root (x.walk (b.facts.options o) none) = .ok listed := hlisted
  have hready := h.ready_listed rfl hlisted
  have hready' := h.full.ready_listed rfl hlisted'
  have hfresh' := hready'.fresh_ofSorting
  have hlimits : BuildContext.Ready.limits x t (b.facts.options o) none ⟨listed, .empty⟩ =
      BuildContext.Ready.limits x t o (some b) ⟨listed, .empty⟩ :=
    congrArg _ (Profile.params_resolve hresolved _ _ _)
  rw [hlimits] at hfresh'
  refine hready.fresh_ofSorting.perm hfresh' (h.inj b rfl) fun p hash => ?_
  rw [hready.mem_files_of_legible hlisted hlegible, hready'.mem_files_of_legible hlisted' hlegible]
  exact Iff.rfl

/-- What an incremental build drafts is what a full build drafts. -/
theorem Draftable.sameIndex (h : Draftable texts t x (.incremental none) (some b))
    (hresolved : b.facts.profile.IsResolved x.settings)
    (hlegible : Listing.Legible t x.root (x.walk o (some b))) {id id' : Nat}
    {store store' : Store} {built built' : Built}
    (hsync : draft t x o (.incremental none) (some b) id = .ok (store, built))
    (hfull : draft t x (b.facts.options o) .full none id' = .ok (store', built')) :
    store.SameIndex store' := by
  obtain ⟨plan, -, hplan, -, -, hfiles, hchunks⟩ := draft_spec h hsync
  obtain ⟨listed, hlisted, rfl⟩ := ReadPlan.make_unhinted_iff.mp hplan
  obtain ⟨plan', -, hplan', -, -, hfiles', hchunks'⟩ := draft_spec h.full hfull
  obtain ⟨listed', hlisted', rfl⟩ := ReadPlan.make_unhinted_iff.mp hplan'
  have hsame : Listing.files t x.root (x.walk (b.facts.options o) none) = .ok listed := hlisted
  rw [hsame] at hlisted'
  obtain rfl := Except.ok.inj hlisted'
  rw [Store.SameIndex, hfiles, hchunks, hfiles', hchunks']
  exact h.perm_ofSorting hresolved hlisted hlegible

/-- An incremental build can draft a store exactly if a full build can. -/
theorem Draftable.isOk_iff_full (h : Draftable texts t x (.incremental none) (some b))
    (hresolved : b.facts.profile.IsResolved x.settings)
    (hlegible : Listing.Legible t x.root (x.walk o (some b))) (hstop : o.stop = none)
    (hmodel : ∀ m, x.model = some m → m.Replies) (id id' : Nat) :
    (∃ store built, draft t x o (.incremental none) (some b) id = .ok (store, built)) ↔
      ∃ store built, draft t x (b.facts.options o) .full none id' = .ok (store, built) := by
  have hstop' : (b.facts.options o).stop = none := hstop
  rw [draft_isOk_iff h hstop hmodel, draft_isOk_iff h.full hstop' hmodel]
  have hexceeds : ∀ listed, Listing.files t x.root (x.walk o (some b)) = .ok listed → ∀ limit,
      (x.sorting t o (some b) ⟨listed, .empty⟩).exceeds listed.length limit =
        (x.sorting t (b.facts.options o) none ⟨listed, .empty⟩).exceeds listed.length limit := by
    intro listed hlisted limit
    have hlisted' : Listing.files t x.root (x.walk (b.facts.options o) none) = .ok listed := hlisted
    rw [Sorting.exceeds, Sorting.exceeds, failed_of_legible hlisted hlegible,
      failed_of_legible hlisted' hlegible]
  constructor
  · rintro ⟨plan, hplan, hfew, hunique⟩
    obtain ⟨listed, hlisted, rfl⟩ := ReadPlan.make_unhinted_iff.mp hplan
    have hperm := h.perm_ofSorting hresolved hlisted hlegible
    refine ⟨⟨listed, .empty⟩, ReadPlan.make_unhinted_iff.mpr ⟨listed, hlisted, rfl⟩, ?_, ?_⟩
    · rw [← hexceeds listed hlisted]
      exact hfew
    · exact (Store.SameIndex.nodup_iff hperm.2).mp hunique
  · rintro ⟨plan, hplan, hfew, hunique⟩
    obtain ⟨listed, hlisted, rfl⟩ := ReadPlan.make_unhinted_iff.mp hplan
    have hlisted' : Listing.files t x.root (x.walk o (some b)) = .ok listed := hlisted
    have hperm := h.perm_ofSorting hresolved hlisted' hlegible
    refine ⟨⟨listed, .empty⟩, ReadPlan.make_unhinted_iff.mpr ⟨listed, hlisted', rfl⟩, ?_, ?_⟩
    · rw [hexceeds listed hlisted']
      exact hfew
    · exact (Store.SameIndex.nodup_iff hperm.2).mpr hunique

end Project

/-! ## Runs with fixed settings -/

/-- The profile of a generation is resolved. -/
def Scope.ResolvedStore (settings : Settings) (facts : BuildFacts) (_ : Store) : Prop :=
  facts.profile.IsResolved settings

theorem BuildContext.isResolved_profileFor
    (hbase : ∀ b, base = some b → b.facts.profile.IsResolved x.settings)
    (changed : List SourceFile) : (x.profileFor o base changed).1.IsResolved x.settings := by
  cases base with
  | none => exact Profile.isResolved_resolve _ _ _ x.settings _
  | some b => exact hbase b rfl

variable {S : Scope} {w : Workspace} {p : Project}

theorem Scope.preserves_resolved {settings : Settings}
    (hfixed : ∀ s m, S.handle s m → s = settings) : S.Preserves (Scope.ResolvedStore settings) := by
  intro t x o mode base id store built _ hhandle _ _ _ hbase hdraft
  obtain rfl := hfixed _ _ hhandle
  obtain ⟨q, q', hmake, hcomplete, hstore, -, -⟩ := Project.draft_ok_iff.mp hdraft
  obtain ⟨plan, -, -, -, -, rfl⟩ := (Prepared.make_ok_iff _ q).mp hmake
  obtain ⟨hq, -⟩ := Prepared.complete_spec hcomplete
  refine ⟨_, (Project.chunks_of_storeOf hstore).2, ?_⟩
  rw [hq]
  exact BuildContext.isResolved_profileFor hbase _

/-- What a build needs of where it starts holds throughout a run. -/
theorem Invariant.prepares {Good : BuildFacts → Store → Prop} (h : Invariant S Good w p) :
    Project.Prepares S.home w p where
  wellFormed := h.lock.wellFormed
  lies := h.lock.lies
  path := by
    rw [← Project.started_directory w p]
    exact h.started.path

/-- The generation in use is a fresh start for a build without hints. -/
theorem Run.draftable (hhint : ∀ q, S.hint q → q.IsNormal) (hinj : Set.InjOn Digest.ofText S.texts)
    (h : Run S w p) (htexts : ReadsWithin S.texts (Project.seen w p) p.root) {g : Generation}
    (hg : (Project.started w p).2.current = some g) {earlier : Store}
    (hearlier : g.reader (Project.seen w p) "failed to prepare query" "files" = .ok earlier) :
    Project.Draftable S.texts (Project.seen w p) (p.context S.parse) (.incremental none)
      (some { facts := g.facts, store := earlier }) := by
  have hinvariant := h.invariant (S.preserves_fresh hhint hinj)
  rw [← Project.started_tree] at hearlier
  refine ⟨hinvariant.lock.wellFormed, fun b hb => ?_, htexts, fun _ _ => hinj, fun hs hhs => nomatch hhs⟩
  obtain rfl := Option.some.inj hb
  exact (hinvariant.started.read hg hearlier).2

/-- In every run with fixed settings, a build without hints and a full build with the profile and
the languages of the generation in use yield the same index, if every file that is listed can be
read. The former yields one exactly if the latter does and the store of that generation can be
read. -/
theorem Run.sync_agrees {settings : Settings} (hfixed : ∀ s m, S.handle s m → s = settings)
    (hhint : ∀ q, S.hint q → q.IsNormal) (hinj : Set.InjOn Digest.ofText S.texts) (h : Run S w p)
    (htexts : ReadsWithin S.texts (Project.seen w p) p.root) {g : Generation}
    (hg : (Project.started w p).2.current = some g)
    (hlegible : Listing.Legible (Project.seen w p) p.root
      ((WalkOptions.ofSettings p.settings.index).withLanguages g.facts.languages))
    (o : BuildOptions) :
    (∀ s s', (Project.build w p S.parse (.incremental none) o).Yields s →
      (Project.build w p S.parse .full (g.facts.options o)).Yields s' → s.SameIndex s') ∧
    (o.stop = none → (∀ m, p.model = some m → m.Replies) →
      ((∃ s, (Project.build w p S.parse (.incremental none) o).Yields s) ↔
        (∃ s, g.reader (Project.seen w p) "failed to prepare query" "files" = .ok s) ∧
          ∃ s', (Project.build w p S.parse .full (g.facts.options o)).Yields s')) := by
  have hinvariant := h.invariant (S.preserves_resolved hfixed)
  have hprepares := hinvariant.prepares
  have hsettings : p.settings = settings := hfixed _ _ hinvariant.handle
  have hresolved : ∀ earlier, g.reader (Project.seen w p) "failed to prepare query" "files" =
      .ok earlier → g.facts.profile.IsResolved p.settings := by
    intro earlier hearlier
    rw [← Project.started_tree] at hearlier
    rw [hsettings]
    exact (hinvariant.started.read hg hearlier).2
  constructor
  · intro s s' hs hs'
    obtain ⟨-, id, -, earlier, hearlier, built, hdraft⟩ :=
      (Project.incremental_yields_iff hprepares hg none s).mp hs
    obtain ⟨-, id', -, built', hdraft'⟩ := (Project.full_yields_iff hprepares s').mp hs'
    exact (h.draftable hhint hinj htexts hg hearlier).sameIndex (hresolved earlier hearlier) hlegible
      hdraft hdraft'
  · intro hstop hmodel
    simp only [Project.incremental_yields_iff hprepares hg, Project.full_yields_iff hprepares]
    constructor
    · rintro ⟨s, hfree, id, hclear, earlier, hearlier, built, hdraft⟩
      obtain ⟨s', built', hdraft'⟩ := ((h.draftable hhint hinj htexts hg hearlier).isOk_iff_full
        (hresolved earlier hearlier) hlegible hstop hmodel id id).mp ⟨s, built, hdraft⟩
      exact ⟨⟨earlier, hearlier⟩, s', hfree, id, hclear, built', hdraft'⟩
    · rintro ⟨⟨earlier, hearlier⟩, s', hfree, id, hclear, built', hdraft'⟩
      obtain ⟨s, built, hdraft⟩ := ((h.draftable hhint hinj htexts hg hearlier).isOk_iff_full
        (hresolved earlier hearlier) hlegible hstop hmodel id id).mpr ⟨s', built', hdraft'⟩
      exact ⟨s, hfree, id, hclear, earlier, hearlier, built, hdraft⟩

/-! ## The small project after an edit -/

namespace Project

/-- Nothing is in the way of its second generation. -/
theorem clear_smallEdited :
    (smallEdited.lock smallBuilt.project.directory).2 = .ok true ∧
      Clear Scope.small.home (started smallEdited smallBuilt.project).1
        (started smallEdited smallBuilt.project).2 2 := by
  have hlies := run_smallEdited.inOrder.prepares.lies
  refine ⟨by decide +kernel, ?_, ?_, ?_, ?_, ?_, ?_⟩
  · rw [started_directory, started_tree]
    have hcurrent : smallBuilt.project.directory.readCurrent (seen smallEdited smallBuilt.project) =
        .ok (some 1) := by decide +kernel
    have hids : ((seen smallEdited smallBuilt.project).namesIn Scope.small.home).filterMap
        IndexDirectory.idOfName? = [1] := by decide +kernel
    rw [hlies.nextId_eq hcurrent, hids]
    rfl
  · have hnone : ((seen smallEdited smallBuilt.project).item?
        (Scope.small.home ++ [IndexDirectory.nameOf 2])).isNone = true := by decide +kernel
    rw [started_tree]
    exact Option.isNone_iff_eq_none.mp hnone
  · rw [started_tree]
    decide +kernel
  · rw [started_tree]
    decide +kernel
  · rw [started_tree]
    decide +kernel
  · intro previous hprevious hname
    have hother : (started smallEdited smallBuilt.project).2.current.all
        (fun g => IndexDirectory.nameOf g.id ≠ IndexDirectory.nameOf 2) = true := by decide +kernel
    rw [hprevious] at hother
    exact absurd hname (by simpa using hother)

/-- Its file is recorded as it was, it can be read, and a build without hints yields a store. -/
theorem smallEdited_spec : ∃ (g : Generation) (earlier s : Store),
    (started smallEdited smallBuilt.project).2.current = some g ∧
    g.reader (seen smallEdited smallBuilt.project) "failed to prepare query" "files" = .ok earlier ∧
    earlier.files.map FileRecord.contentHash = [Digest.ofText "one\n"] ∧
    Listing.Legible (seen smallEdited smallBuilt.project) smallBuilt.project.root
      ((WalkOptions.ofSettings smallBuilt.project.settings.index).withLanguages g.facts.languages) ∧
    (build smallEdited smallBuilt.project Scope.small.parse (.incremental none) {}).Yields s := by
  have hall : ((started smallEdited smallBuilt.project).2.current.bind fun g =>
      (g.reader (seen smallEdited smallBuilt.project) "failed to prepare query"
        "files").toOption.map fun earlier =>
        (earlier.files.map FileRecord.contentHash,
          Listing.isLegible (seen smallEdited smallBuilt.project) smallBuilt.project.root
            ((WalkOptions.ofSettings smallBuilt.project.settings.index).withLanguages
              g.facts.languages),
          (draft (seen smallEdited smallBuilt.project) (smallBuilt.project.context Scope.small.parse)
            {} (.incremental none) (some { facts := g.facts, store := earlier }) 2).isOk)) =
      some ([Digest.ofText "one\n"], true, true) := by decide +kernel
  obtain ⟨g, hg, hall⟩ := Option.bind_eq_some_iff.mp hall
  obtain ⟨earlier, hearlier, hall⟩ := Option.map_eq_some_iff.mp hall
  obtain ⟨hfiles, hall⟩ := Prod.mk.inj hall
  obtain ⟨hlegible, hdraft⟩ := Prod.mk.inj hall
  obtain ⟨⟨s, built⟩, hdraft⟩ := Except.exists_of_isOk hdraft
  have hreader := Except.eq_ok_of_toOption hearlier
  obtain ⟨hfree, hclear⟩ := clear_smallEdited
  refine ⟨g, earlier, s, hg, hreader, hfiles, Listing.legible_of_isLegible hlegible, ?_⟩
  rw [incremental_yields_iff run_smallEdited.inOrder.prepares hg]
  exact ⟨hfree, 2, hclear, earlier, hreader, built, hdraft⟩

theorem replies_smallBuilt : ∀ m, smallBuilt.project.model = some m → m.Replies := by
  have hnone : smallBuilt.project.model.isNone = true := by decide +kernel
  intro m hm
  rw [hm] at hnone
  cases hnone

theorem readsWithin_smallEdited :
    ReadsWithin Scope.small.texts (seen smallEdited smallBuilt.project) smallBuilt.project.root :=
  readsWithin_of_entries (by decide +kernel) _

end Project

/-- There the two kinds of build agree. -/
theorem Run.sync_agrees_smallEdited : ∃ (g : Generation) (s s' : Store),
    (Project.started Project.smallEdited Project.smallBuilt.project).2.current = some g ∧
    (Project.build Project.smallEdited Project.smallBuilt.project Scope.small.parse
      (.incremental none) {}).Yields s ∧
    (Project.build Project.smallEdited Project.smallBuilt.project Scope.small.parse .full
      (g.facts.options {})).Yields s' ∧ s.SameIndex s' := by
  obtain ⟨g, earlier, s, hg, -, -, hlegible, hs⟩ := Project.smallEdited_spec
  obtain ⟨hsame, hyields⟩ := Run.sync_agrees (fun _ _ hfixed => hfixed) (fun _ hq => hq)
    Project.injOn_smallTexts Project.run_smallEdited Project.readsWithin_smallEdited hg hlegible {}
  obtain ⟨-, s', hs'⟩ := (hyields rfl Project.replies_smallBuilt).mp ⟨s, hs⟩
  exact ⟨g, s, s', hg, hs, hs', hsame s s' hs hs'⟩

end SourceIndex
