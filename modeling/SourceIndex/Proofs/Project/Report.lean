import Mathlib
import SourceIndex.Proofs.Build.Report
import SourceIndex.Proofs.Project.Places
import SourceIndex.Proofs.Project.Recovery

/-! # Reports of builds

Every build that succeeds reports numbers that add up (`Run.report_adds_up`): those of the store that it
has written, which is the one that is read afterwards, and of the generation that it started from.
Hints may be given in any spelling, since paths are counted by their parts.
-/

set_option autoImplicit false

namespace SourceIndex

open IndexDirectory

-- names of files are not to be computed
attribute [local irreducible] nameOf journalName removeStore Project.buildLocked

namespace Project

variable {t : FileTree} {x : BuildContext} {o : BuildOptions} {mode : BuildMode}
  {base : Option BuildBase} {id : Nat} {store : Store} {built : Built}

/-- Whatever a build starts from, its plan tells paths apart and leads to keyed contents. -/
theorem keyed_of_make (hwf : t.WellFormed)
    (hbase : ∀ b, base = some b → Keyed b.store.files b.store.chunks) {plan : ReadPlan}
    (hplan : ReadPlan.make t x.root (x.walk o base) ((base.map BuildBase.records).map PathMap.keys)
      (hintsFor mode base) = .ok plan) :
    plan.Apart ∧ Keyed (Prepared.ofSorting x o base (x.sorting t o base plan)).files
      (Prepared.ofSorting x o base (x.sorting t o base plan)).chunks := by
  cases base with
  | none =>
    have hready : x.Ready t o none Set.univ plan := (Draftable.of_none hwf).ready hplan
    exact ⟨hready.sound.apart, hready.fresh_ofSorting.keyed⟩
  | some b => exact keyed_of_plan x o mode hwf (hbase b rfl) plan hplan

/-- The numbers that are told about a draft add up. -/
theorem addsUp_of_draft (hwf : t.WellFormed)
    (hbase : ∀ b, base = some b → Keyed b.store.files b.store.chunks)
    (hdraft : draft t x o mode base id = .ok (store, built)) :
    ∃ plan, ReadPlan.make t x.root (x.walk o base) ((base.map BuildBase.records).map PathMap.keys)
        (hintsFor mode base) = .ok plan ∧
      built.report.generation = id ∧ built.report.incremental = base.isSome ∧
      built.report.AddsUp (BuildBase.filesOf base)
        ((x.carriedCuts o base (x.sorting t o base plan)).map CutFile.record)
        ((x.newCuts o base (x.sorting t o base plan)).map CutFile.record) store := by
  obtain ⟨p, q, hmake, hcomplete, hstore, -, rfl⟩ := draft_ok_iff.mp hdraft
  obtain ⟨plan, hplan, -, -, -, hp⟩ := (Prepared.make_ok_iff _ p).mp hmake
  obtain ⟨hq, -⟩ := Prepared.complete_spec hcomplete
  obtain ⟨hapart, hkeyed⟩ := keyed_of_make hwf hbase hplan
  rw [← hp] at hkeyed
  have hfiles : q.files = p.files := by rw [hq]
  have hincremental : q.incremental = base.isSome := by
    rw [hq]
    show p.incremental = base.isSome
    rw [hp, Prepared.incremental_ofSorting]
  obtain ⟨-, -, rfl⟩ := (storeOf_ok_iff_of_nodup (hfiles ▸ hkeyed.nodup_paths) _).mp hstore
  exact ⟨plan, hplan, rfl, hincremental, BuildContext.addsUp_ofSorting hapart hp hkeyed.nodup hq _⟩

end Project

/-- In every run, a build that succeeds has drafted a store from the generation in use, or from nothing,
and its numbers add up for this store. No other store is read afterwards. From nothing, as every full
build starts, no file is carried over or removed. -/
theorem Run.report_adds_up {S : Scope} {w : Workspace} {p : Project} (h : Run S w p)
    {mode : BuildMode} {o : BuildOptions} {built : Project.Built}
    (hok : (Project.build w p S.parse mode o).answer = .ok built) :
    ∃ base plan store,
      let t := Project.seen w p
      let x := p.context S.parse
      let s := x.sorting t o base plan
      Project.baseOf (Project.started w p).1 mode (Project.started w p).2.current = .ok base ∧
      ReadPlan.make t x.root (x.walk o base) ((base.map BuildBase.records).map PathMap.keys)
        (Project.hintsFor mode base) = .ok plan ∧
      Project.draft t x o mode base built.report.generation = .ok (store, built) ∧
      (∀ s, (Project.build w p S.parse mode o).Yields s → s = store) ∧
      built.report.AddsUp (BuildBase.filesOf base) ((x.carriedCuts o base s).map CutFile.record)
        ((x.newCuts o base s).map CutFile.record) store ∧
      built.report.incremental = base.isSome ∧
      (mode = .full → base = none) ∧
      (base = none → built.report.reused = 0 ∧ built.report.removed = 0) := by
  have hprepares := (h.invariant S.preserves_spelled).prepares
  obtain ⟨⟨id, store, hmakes⟩, -⟩ :=
    (Project.build_ok_iff hprepares (Project.lock_of_build_ok hok) built).mp hok
  obtain ⟨base, hbase, hdraft⟩ := hmakes.drafted
  rw [Project.started_tree, Project.started_context] at hdraft
  have hkeyed : ∀ b, base = some b → Keyed b.store.files b.store.chunks := by
    rintro b rfl
    obtain ⟨-, g, -, hg, hread, -⟩ := Project.baseOf_eq_some_iff.mp hbase
    rw [Project.started_tree] at hread
    exact h.keyed hg hread
  obtain ⟨plan, hplan, rfl, hincremental, hadds⟩ :=
    Project.addsUp_of_draft hprepares.wellFormed hkeyed hdraft
  refine ⟨base, plan, store, hbase, hplan, hdraft, fun s hs => ?_, hadds, hincremental, ?_, ?_⟩
  · -- whatever is read afterwards was drafted from the same base, under the same number
    obtain ⟨-, id, hclear, base', hbase', built', hdraft'⟩ :=
      (Project.build_yields_iff hprepares s).mp hs
    obtain rfl := Except.ok.inj (hmakes.next.symm.trans hclear.next)
    obtain rfl := Except.ok.inj (hbase.symm.trans hbase')
    exact congrArg Prod.fst (Except.ok.inj (hdraft'.symm.trans hdraft))
  · rintro rfl
    rw [Project.baseOf_full] at hbase
    exact (Except.ok.inj hbase).symm
  · rintro rfl
    exact hadds.of_nil

-- only the kernel is to compute the small project
attribute [local irreducible] Project.smallBuilt Project.smallEdited

/-- The first build of the small project reports one file that is cut anew, and a sync after an edit
starts from one file; the numbers of both add up. -/
theorem Run.report_smallEdited :
    (∃ built kept cut store,
      (Project.build Project.smallOpened.1 Project.small Scope.small.parse .full {}).answer =
        .ok built ∧
      (built.report.files, built.report.rebuilt, built.report.reused, built.report.removed) =
        (1, 1, 0, 0) ∧
      built.report.AddsUp [] kept cut store) ∧
    ∃ built base kept cut store,
      (Project.build Project.smallEdited Project.smallBuilt.project Scope.small.parse
        (.incremental none) {}).answer = .ok built ∧
      (Project.build Project.smallEdited Project.smallBuilt.project Scope.small.parse
        (.incremental none) {}).Yields store ∧
      (BuildBase.filesOf base).map FileRecord.contentHash = [Digest.ofText "one\n"] ∧
      built.report.incremental = true ∧
      built.report.AddsUp (BuildBase.filesOf base) kept cut store := by
  constructor
  · have hbuild : (Project.build Project.smallOpened.1 Project.small Scope.small.parse .full
        {}).answer.toOption.map (fun built => (built.report.files, built.report.rebuilt,
          built.report.reused, built.report.removed)) = some (1, 1, 0, 0) := by decide +kernel
    obtain ⟨built, hbuilt, hnumbers⟩ := Option.map_eq_some_iff.mp hbuild
    have hok := Except.eq_ok_of_toOption hbuilt
    obtain ⟨base, plan, store, -, -, -, -, hadds, -, hfull, -⟩ :=
      Run.report_adds_up (Run.small (S := .small) rfl rfl) hok
    obtain rfl := hfull rfl
    exact ⟨built, _, _, store, hok, hnumbers, hadds⟩
  · obtain ⟨g, earlier, s, hg, hearlier, hhash, -, hs⟩ := Project.smallEdited_spec
    have hyields := hs
    obtain ⟨built, -, hok, -⟩ := hs
    obtain ⟨base, plan, store, hbase, -, -, hsame, hadds, hincremental, -⟩ :=
      Run.report_adds_up Project.run_smallEdited hok
    obtain rfl := hsame s hyields
    rw [hg, Project.baseOf_incremental, Project.started_tree, hearlier] at hbase
    obtain rfl := Except.ok.inj hbase
    refine ⟨built, some { facts := g.facts, store := earlier }, _, _, s, hok, hyields, ?_,
      hincremental, hadds⟩
    exact hhash

end SourceIndex
