import Mathlib
import SourceIndex.Proofs.Build.Taken
import SourceIndex.Proofs.Project.Agreement

/-! # Where indexed files lie

A store lies inside the project if all its paths are plain and no two of them denote one place
(`Store.Inside`). Whatever hints a run has seen, no two records have paths with the same parts, and
every path is plain or was read for a hint that is spelled like it (`Run.inside_iff`). A build without
hints yields a store that lies inside; one with hints does exactly if every path that is read for them
is plain or has nothing to be read. Nothing makes hints plain: `./a.md` is read and recorded beside
`a.md`, whose file it is (`Project.not_inside_smallEdited`).
-/

set_option autoImplicit false

namespace SourceIndex

/-- All paths are plain, and no two of them denote one place. -/
structure Store.Inside (s : Store) : Prop where
  plain : ∀ f ∈ s.files, f.path.isPlain = true
  places : (s.files.map fun f => f.path.place?).Nodup

/-- Keyed contents with plain paths lie inside. -/
theorem Keyed.inside {s : Store} (h : Keyed s.files s.chunks)
    (hplain : ∀ f ∈ s.files, f.path.isPlain = true) : s.Inside where
  plain := hplain
  places := by
    refine List.Nodup.map_on (fun f hf g hg hplace => ?_) (List.Nodup.of_map _ h.nodup)
    exact h.eq_of_parts hf hg (Path.parts_eq_of_place? (hplain f hf) (hplain g hg) hplace)

theorem Fresh.plain {parse : Chunk.Parse} {texts : Set String} {limits : ChunkLimits}
    {files : List FileRecord} {chunks : List Chunk} (h : Fresh parse texts limits files chunks) :
    ∀ f ∈ files, f.path.isPlain = true :=
  fun f hf => (h.normal f hf).isPlain

/-! ## Drafts from keyed contents -/

namespace Project

variable {t : FileTree} {x : BuildContext} {o : BuildOptions} {mode : BuildMode} {b : BuildBase}
  {id : Nat} {store : Store} {built : Built} {hints : List Path}

/-- A draft that starts from nothing is fresh. -/
theorem draft_fresh_of_none (hwf : t.WellFormed)
    (hdraft : draft t x o mode none id = .ok (store, built)) :
    ∃ facts, store.facts = some facts ∧
      Fresh x.parse Set.univ facts.profile.params.toChunkLimits store.files store.chunks := by
  -- without an earlier generation hints are not looked at
  have hfull : draft t x o .full none id = .ok (store, built) := hdraft
  exact draft_fresh (.of_none hwf) hfull

/-- A store holds what a plan leads to, with vectors: not too many files could not be read, no two
chunks have the same id, and the contents are keyed. -/
structure Holds (t : FileTree) (x : BuildContext) (o : BuildOptions) (b : BuildBase)
    (plan : ReadPlan) (store : Store) : Prop where
  apart : plan.Apart
  few : (x.sorting t o (some b) plan).exceeds plan.read.length x.settings.index.failureThreshold
    = false
  unique : (((x.planned t o b plan).flatMap CutFile.chunks).map Chunk.id).Nodup
  keyed : Keyed store.files store.chunks
  files : store.files.Perm ((x.planned t o b plan).map CutFile.record)
  chunks : (store.chunks.map Chunk.bare).Perm
    (((x.planned t o b plan).flatMap CutFile.chunks).map Chunk.bare)

/-- Every plan tells its paths apart, and leads to keyed contents. -/
theorem keyed_of_plan (x : BuildContext) (o : BuildOptions) (mode : BuildMode)
    (hwf : t.WellFormed) (hb : Keyed b.store.files b.store.chunks) :
    ∀ plan, ReadPlan.make t x.root (x.walk o (some b))
        (((some b).map BuildBase.records).map PathMap.keys) (hintsFor mode (some b)) = .ok plan →
      plan.Apart ∧ Keyed (Prepared.ofSorting x o (some b) (x.sorting t o (some b) plan)).files
        (Prepared.ofSorting x o (some b) (x.sorting t o (some b) plan)).chunks := by
  intro plan hplan
  have hapart := (ReadPlan.make_apart hwf hplan).1
  exact ⟨hapart, BuildContext.keyed_ofSorting hapart hb⟩

/-- What is drafted from keyed contents is what a plan leads to. -/
theorem draft_keyed (hwf : t.WellFormed) (hb : Keyed b.store.files b.store.chunks)
    (hdraft : draft t x o mode (some b) id = .ok (store, built)) :
    ∃ plan facts, ReadPlan.make t x.root (x.walk o (some b)) (some b.records.keys) (hintsOf mode) =
        .ok plan ∧ store.facts = some facts ∧ Holds t x o b plan store := by
  have hplans := keyed_of_plan x o mode hwf hb
  obtain ⟨plan, facts, hplan, hfew, hunique, hfacts, -, hfiles, hchunks⟩ :=
    draft_planned (fun plan hplan => (hplans plan hplan).2.nodup_paths) hdraft
  obtain ⟨hapart, hkeyed⟩ := hplans plan hplan
  refine ⟨plan, facts, hplan, hfacts, hapart, hfew, ?_, ?_, ?_, ?_⟩
  · exact ((BuildContext.perm_chunks hapart).map Chunk.id).nodup_iff.mp hunique
  · rw [hfiles]
    exact hkeyed.of_map_bare hchunks
  · rw [hfiles]
    exact BuildContext.perm_files hapart
  · rw [hchunks]
    exact (BuildContext.perm_chunks hapart).map _

/-- What a plan leads to from keyed contents can be drafted if the build is not stopped, not too many
files cannot be read, and no two chunks have the same id. -/
theorem draft_isOk_of_keyed (hwf : t.WellFormed) (hb : Keyed b.store.files b.store.chunks)
    (hstop : o.stop = none) (hmodel : ∀ m, x.model = some m → m.Replies) (id : Nat) {plan : ReadPlan}
    (hplan : ReadPlan.make t x.root (x.walk o (some b)) (some b.records.keys) (hintsOf mode) =
      .ok plan)
    (hexceeds : (x.sorting t o (some b) plan).exceeds plan.read.length
      x.settings.index.failureThreshold = false)
    (hunique : (((x.planned t o b plan).flatMap CutFile.chunks).map Chunk.id).Nodup) :
    ∃ store built, draft t x o mode (some b) id = .ok (store, built) := by
  have hplans := keyed_of_plan x o mode hwf hb
  obtain ⟨hapart, hkeyed⟩ := hplans plan hplan
  refine draft_isOk_of_planned (fun plan hplan => (hplans plan hplan).2.nodup_paths)
    hstop hmodel id hplan hexceeds ?_ hkeyed.recorded
  exact ((BuildContext.perm_chunks hapart).map Chunk.id).nodup_iff.mpr hunique

/-- A draft from keyed contents records earlier paths again, and paths that were read. -/
theorem mem_files_of_draft (hwf : t.WellFormed) (hb : Keyed b.store.files b.store.chunks)
    (hdraft : draft t x o mode (some b) id = .ok (store, built)) :
    ∃ plan, ReadPlan.make t x.root (x.walk o (some b)) (some b.records.keys) (hintsOf mode) =
        .ok plan ∧
      (∀ f ∈ store.files, (∃ q ∈ plan.carry.keys ++ plan.read, f.path.parts = q.parts) ∧
        ((∃ e ∈ b.store.files, e.path = f.path) ∨ f.path ∈ plan.read ∧
          ∃ file, Listing.readSource t x.root f.path (x.walk o (some b)) = .ok (some file))) ∧
      ∀ q ∈ plan.read, ∀ file, Listing.readSource t x.root q (x.walk o (some b)) = .ok (some file) →
        ∃ f ∈ store.files, f.path.parts = q.parts := by
  obtain ⟨plan, -, hplan, -, hholds⟩ := draft_keyed hwf hb hdraft
  refine ⟨plan, hplan, fun f hf => ?_, fun q hq file hfile => ?_⟩
  · obtain ⟨c, hc, rfl⟩ := List.mem_map.mp (hholds.files.mem_iff.mp hf)
    exact BuildContext.of_mem_planned hc
  · obtain ⟨c, hc⟩ := BuildContext.taken_isSome_of_read hfile
    have hmem : c ∈ x.planned t o b plan :=
      List.mem_append_right _ (List.mem_filterMap.mpr ⟨q, hq, hc⟩)
    exact ⟨c.record, hholds.files.mem_iff.mpr (List.mem_map_of_mem hmem),
      (BuildContext.of_taken hb hc).1⟩

/-- Without hints only listed files are recorded. -/
theorem plain_of_unhinted (hwf : t.WellFormed) (hb : Keyed b.store.files b.store.chunks)
    (hmode : hintsOf mode = none) (hdraft : draft t x o mode (some b) id = .ok (store, built)) :
    ∀ f ∈ store.files, f.path.isPlain = true := by
  obtain ⟨plan, hplan, hfiles, -⟩ := mem_files_of_draft hwf hb hdraft
  rw [hmode] at hplan
  obtain ⟨listed, hlisted, rfl⟩ := ReadPlan.make_unhinted_iff.mp hplan
  intro f hf
  obtain ⟨⟨q, hq, hparts⟩, -⟩ := hfiles f hf
  rw [Path.isPlain_congr hparts]
  exact (Listing.files_normal hwf hlisted q hq).isPlain

/-- With hints the paths that are read for them are recorded, if there is something to be read. -/
theorem plain_iff_of_hinted (hwf : t.WellFormed) (hb : Keyed b.store.files b.store.chunks)
    (hplain : ∀ f ∈ b.store.files, f.path.isPlain = true)
    (hdraft : draft t x o (.incremental (some hints)) (some b) id = .ok (store, built)) :
    ∃ plan, ReadPlan.ofHints t x.root (x.walk o (some b)) b.records.keys hints = .ok plan ∧
      ((∀ f ∈ store.files, f.path.isPlain = true) ↔ ∀ q ∈ plan.read, ∀ file,
        Listing.readSource t x.root q (x.walk o (some b)) = .ok (some file) → q.isPlain = true) := by
  obtain ⟨plan, hplan, hfiles, hread⟩ := mem_files_of_draft hwf hb hdraft
  refine ⟨plan, hplan, fun h q hq file hfile => ?_, fun h f hf => ?_⟩
  · obtain ⟨f, hf, hparts⟩ := hread q hq file hfile
    rw [← Path.isPlain_congr hparts]
    exact h f hf
  · rcases (hfiles f hf).2 with ⟨e, he, hpath⟩ | ⟨hmem, file, hfile⟩
    · rw [← hpath]
      exact hplain e he
    · exact h f.path hmem file hfile

end Project

/-- A path is read because it is listed, or for a hint that is spelled like it. -/
theorem ReadPlan.plain_or_hinted {t : FileTree} {root : Path} {o : WalkOptions}
    {earlier hints : Option (List Path)} {plan : ReadPlan} (hwf : t.WellFormed)
    (h : make t root o earlier hints = .ok plan) {q : Path} (hq : q ∈ plan.read) :
    q.isPlain = true ∨ ∃ hs, hints = some hs ∧ ∃ k ∈ hs, relativeHint root k = some q := by
  rcases make_cases h with ⟨ps, hs, rfl, rfl, hplan⟩ | ⟨listed, hlisted, rfl⟩
  · obtain ⟨-, -, hread⟩ := ofHints_apart hplan
    obtain ⟨k, hk, hstands⟩ := hread q hq
    rw [StandsFor] at hstands
    split at hstands
    · obtain ⟨listed, hlisted, hmem, -⟩ := hstands
      exact .inl (Listing.files_normal hwf hlisted q hmem).isPlain
    · obtain rfl := hstands
      obtain ⟨hint, hhint, hrelative⟩ := List.mem_filterMap.mp (List.mem_filter.mp hk).1
      exact .inr ⟨hs, rfl, hint, hhint, hrelative⟩
  · exact .inl (Listing.files_normal hwf hlisted q hq).isPlain

/-! ## Runs -/

/-- A store is keyed, and every path is plain or spelled like a hint. -/
structure Scope.SpelledStore (S : Scope) (facts : BuildFacts) (store : Store) : Prop where
  keyed : Keyed store.files store.chunks
  spelled : ∀ f ∈ store.files, f.path.isPlain = true ∨ S.hint f.path

theorem Scope.preserves_spelled (S : Scope) : S.Preserves S.SpelledStore := by
  intro t x o mode base id store built hwf _ _ hmode _ hbase hdraft
  cases base with
  | none =>
      obtain ⟨facts, hfacts, hfresh⟩ := Project.draft_fresh_of_none hwf hdraft
      exact ⟨facts, hfacts, hfresh.keyed, fun f hf => .inl (hfresh.plain f hf)⟩
  | some b =>
      obtain ⟨hb, hspelled⟩ := hbase b rfl
      obtain ⟨_, facts, -, hfacts, hholds⟩ := Project.draft_keyed hwf hb hdraft
      obtain ⟨plan, hplan, hfiles, -⟩ := Project.mem_files_of_draft hwf hb hdraft
      refine ⟨facts, hfacts, hholds.keyed, fun f hf => ?_⟩
      rcases (hfiles f hf).2 with ⟨e, he, hpath⟩ | ⟨hread, -⟩
      · rw [← hpath]
        exact hspelled e he
      · refine (ReadPlan.plain_or_hinted hwf hplan hread).imp_right ?_
        rintro ⟨hs, hhs, k, hk, hrelative⟩
        exact hmode hs hhs k hk f.path hrelative

variable {S : Scope} {w : Workspace} {p : Project}

/-- The generation that a build starts from has keyed contents. -/
theorem Run.keyed (h : Run S w p) {g : Generation} {purpose table : String} {earlier : Store}
    (hg : (Project.started w p).2.current = some g)
    (hearlier : g.reader (Project.seen w p) purpose table = .ok earlier) :
    Keyed earlier.files earlier.chunks := by
  rw [← Project.started_tree] at hearlier
  exact ((h.invariant S.preserves_spelled).started.read hg hearlier).2.keyed

/-- In every run, whatever hints it has seen, the records of the generation in use have paths with
different parts, and every path is plain or spelled like a hint. A build without hints yields a store
that lies inside, whatever was there before; a build with hints that starts inside does exactly if
every path that is read for them is plain or has nothing to be read. -/
theorem Run.inside_iff (h : Run S w p) :
    (∀ g, p.current = some g → ∀ purpose table store, g.reader w.tree purpose table = .ok store →
      (store.files.map fun f => f.path.parts).Nodup ∧
      (∀ f ∈ store.files, f.path.isPlain = true ∨ S.hint f.path) ∧
      ((∀ q, S.hint q → q.isPlain = true) → store.Inside)) ∧
    (∀ mode o s, Project.hintsOf mode = none ∨ (Project.started w p).2.current = none →
      (Project.build w p S.parse mode o).Yields s → s.Inside) ∧
    ∀ g earlier hints o s, (Project.started w p).2.current = some g →
      g.reader (Project.seen w p) "failed to prepare query" "files" = .ok earlier → earlier.Inside →
      (Project.build w p S.parse (.incremental (some hints)) o).Yields s →
      ∃ plan, ReadPlan.ofHints (Project.seen w p) p.root
          ((WalkOptions.ofSettings p.settings.index).withLanguages g.facts.languages)
          (BuildBase.records { facts := g.facts, store := earlier }).keys hints = .ok plan ∧
        (s.Inside ↔ ∀ q ∈ plan.read, ∀ file, Listing.readSource (Project.seen w p) p.root q
          ((WalkOptions.ofSettings p.settings.index).withLanguages g.facts.languages) =
            .ok (some file) → q.isPlain = true) := by
  have hinvariant := h.invariant S.preserves_spelled
  have hwf := hinvariant.lock.wellFormed
  refine ⟨fun g hg purpose table store hstore => ?_, fun mode o s hmode hs => ?_,
    fun g earlier hints o s hg hearlier hinside hs => ?_⟩
  · -- what every run keeps
    obtain ⟨-, hkeyed, hspelled⟩ := hinvariant.read hg hstore
    refine ⟨hkeyed.nodup, hspelled, fun hplain => hkeyed.inside fun f hf => ?_⟩
    exact (hspelled f hf).elim (fun hf => hf) (hplain f.path)
  · -- a build without hints starts from nothing, or lists the files again
    obtain ⟨-, id, -, base, hbase, built, hdraft⟩ :=
      (Project.build_yields_iff hinvariant.prepares s).mp hs
    cases base with
    | none =>
        obtain ⟨facts, -, hfresh⟩ := Project.draft_fresh_of_none hwf hdraft
        exact hfresh.keyed.inside hfresh.plain
    | some b =>
        have hb := (hinvariant.started.base hbase).keyed
        obtain ⟨-, g, -, hg, -⟩ := Project.baseOf_eq_some_iff.mp hbase
        have hunhinted := hmode.resolve_right (by simp [hg])
        obtain ⟨_, _, -, -, hholds⟩ := Project.draft_keyed hwf hb hdraft
        exact hholds.keyed.inside (Project.plain_of_unhinted hwf hb hunhinted hdraft)
  · -- a build with hints, where the plan decides
    rw [Project.incremental_yields_iff hinvariant.prepares hg] at hs
    obtain ⟨-, id, -, earlier', hearlier', built, hdraft⟩ := hs
    obtain rfl := Except.ok.inj (hearlier.symm.trans hearlier')
    have hb := h.keyed hg hearlier
    obtain ⟨plan, hplan, hiff⟩ := Project.plain_iff_of_hinted hwf hb hinside.plain hdraft
    obtain ⟨_, _, -, -, hholds⟩ := Project.draft_keyed hwf hb hdraft
    exact ⟨plan, hplan, Iff.trans ⟨Store.Inside.plain, hholds.keyed.inside⟩ hiff⟩

-- only the kernel is to compute the small project
attribute [local irreducible] Project.smallBuilt Project.smallEdited

/-- After its first build the small project lies inside. -/
theorem Run.inside_smallBuilt : ∃ (g : Generation) (store : Store),
    Project.smallBuilt.project.current = some g ∧
    g.reader Project.smallBuilt.workspace.tree "failed to prepare query" "files" = .ok store ∧
    store.files.map FileRecord.path = [⟨"a.md"⟩] ∧ store.Inside := by
  obtain ⟨g, store, hg, hstore, hfiles⟩ := Project.smallBuilt_spec
  obtain ⟨-, -, hinside⟩ := (Run.inside_iff Project.run_smallBuilt).1 g hg _ _ store hstore
  exact ⟨g, store, hg, hstore, hfiles, hinside fun _ hq => hq.isPlain⟩

namespace Project

/-- What the second build of the small project would record for a hint, whether the chunks can be told
apart, and whether too many files cannot be read. -/
def smallHinted (hint : Path) : Option (List Path × Bool × Bool) :=
  (started smallEdited smallBuilt.project).2.current.bind fun g =>
    (g.reader (seen smallEdited smallBuilt.project) "failed to prepare query"
      "files").toOption.bind fun earlier =>
      let x := smallBuilt.project.context Scope.small.parse
      let b : BuildBase := { facts := g.facts, store := earlier }
      (ReadPlan.ofHints (seen smallEdited smallBuilt.project) x.root (x.walk {} (some b))
        b.records.keys [hint]).toOption.map fun plan =>
          let planned := x.planned (seen smallEdited smallBuilt.project) {} b plan
          (planned.map fun c => c.record.path,
            decide ((planned.flatMap CutFile.chunks).map Chunk.id).Nodup,
            (x.sorting (seen smallEdited smallBuilt.project) {} (some b) plan).exceeds
              plan.read.length x.settings.index.failureThreshold)

/-- If nothing speaks against it, the build records that. -/
theorem yields_smallHinted {hint : Path} {paths : List Path}
    (h : smallHinted hint = some (paths, true, false)) :
    ∃ s, (build smallEdited smallBuilt.project Scope.small.parse
        (.incremental (some [hint])) {}).Yields s ∧ (s.files.map FileRecord.path).Perm paths := by
  obtain ⟨g, hg, h⟩ := Option.bind_eq_some_iff.mp h
  obtain ⟨earlier, hearlier, h⟩ := Option.bind_eq_some_iff.mp h
  obtain ⟨plan, hplan, h⟩ := Option.map_eq_some_iff.mp h
  obtain ⟨hpaths, h⟩ := Prod.mk.inj h
  obtain ⟨hunique, hexceeds⟩ := Prod.mk.inj h
  have hreader := Except.eq_ok_of_toOption hearlier
  have hplan := Except.eq_ok_of_toOption hplan
  have hinvariant := run_smallEdited.invariant Scope.small.preserves_spelled
  have hb : Keyed earlier.files earlier.chunks := run_smallEdited.keyed hg hreader
  have hwf := hinvariant.lock.wellFormed
  obtain ⟨s, built, hdraft⟩ : ∃ s built, draft (seen smallEdited smallBuilt.project)
      (smallBuilt.project.context Scope.small.parse) {} (.incremental (some [hint]))
      (some { facts := g.facts, store := earlier }) 2 = .ok (s, built) :=
    draft_isOk_of_keyed hwf hb rfl replies_smallBuilt 2 hplan hexceeds (of_decide_eq_true hunique)
  obtain ⟨hfree, hclear⟩ := clear_smallEdited
  refine ⟨s, ?_, ?_⟩
  · rw [incremental_yields_iff hinvariant.prepares hg]
    exact ⟨hfree, 2, hclear, earlier, hreader, built, hdraft⟩
  · obtain ⟨plan', -, hplan', -, hholds⟩ := draft_keyed hwf hb hdraft
    obtain rfl := Except.ok.inj (hplan.symm.trans hplan')
    have hrecords := hholds.files.map FileRecord.path
    rw [List.map_map] at hrecords
    rw [← hpaths]
    exact hrecords

/-- With a dot in front of the hint a second path is recorded. -/
theorem yields_dotted : ∃ s, (build smallEdited smallBuilt.project Scope.small.parse
      (.incremental (some [⟨"./a.md"⟩])) {}).Yields s ∧
    (s.files.map FileRecord.path).Perm [⟨"a.md"⟩, ⟨"./a.md"⟩] :=
  yields_smallHinted (by decide +kernel)

/-- A hint with a dot in front is read and recorded beside the file that it denotes. -/
theorem not_inside_smallEdited : Run .small smallEdited smallBuilt.project ∧
    ∃ s, (build smallEdited smallBuilt.project Scope.small.parse
        (.incremental (some [⟨"./a.md"⟩])) {}).Yields s ∧
      (s.files.map FileRecord.path).Perm [⟨"a.md"⟩, ⟨"./a.md"⟩] ∧
      (⟨"./a.md"⟩ : Path).place? = (⟨"a.md"⟩ : Path).place? ∧ ¬ s.Inside := by
  obtain ⟨s, hs, hfiles⟩ := yields_dotted
  refine ⟨run_smallEdited, s, hs, hfiles, by decide, fun hinside => ?_⟩
  obtain ⟨f, hf, hpath⟩ := List.mem_map.mp (hfiles.mem_iff.mpr (List.mem_cons_of_mem _
    List.mem_cons_self))
  have hplain := hinside.plain f hf
  rw [hpath] at hplain
  exact absurd hplain (by decide)

end Project

end SourceIndex
