import Mathlib
import SourceIndex.Proofs.Project.Build

/-! # What a build yields

A build yields a store if it succeeds and its generation can be read afterwards (`Step.Yields`).
That is so exactly if nothing is in the way of a new generation, which has nothing to do with what
is built (`Project.Clear`), and the store can be drafted (`Project.build_yields_iff`).
-/

set_option autoImplicit false

namespace SourceIndex

open IndexDirectory

-- names of files are not to be computed
attribute [local irreducible] nameOf journalName removeStore Project.buildLocked

namespace Project

/-- The build succeeds, and the store of the generation that it leaves can be read. -/
def Step.Yields (s : Step Built) (store : Store) : Prop :=
  ∃ built g, s.answer = .ok built ∧ s.project.current = some g ∧
    g.reader s.workspace.tree "failed to prepare query" "files" = .ok store

/-- Nothing is in the way of a new generation: its file is not there and can be set up, its number
can be put into the pointer, and the generation before does not take its file away. -/
structure Clear (home : List String) (w : Workspace) (p : Project) (id : Nat) : Prop where
  next : p.directory.nextId w.tree = .ok id
  free : w.tree.item? (home ++ [nameOf id]) = none
  journal : w.tree.hasDirectory (home ++ [journalName id]) = false
  draft : w.tree.hasDirectory (home ++ [draftName]) = false
  pointer : w.tree.hasDirectory (home ++ [currentName]) = false
  kept : ∀ previous, p.current = some previous → nameOf previous.id = nameOf id →
    w.isHeld previous = true

variable {home : List String} {w : Workspace} {p : Project} {parse : Chunk.Parse}
  {mode : BuildMode} {o : BuildOptions} {id : Nat} {store : Store} {built : Built}

/-- The file of a new generation stays if the generation before does not take it away. -/
theorem item?_retired_iff {d : IndexDirectory} (hlies : d.LiesAt w.tree home)
    (hwf : w.tree.WellFormed) {current : Option Generation}
    (hpath : ∀ g, current = some g → g.path = d.fileFor g.id)
    (hitem : w.tree.item? (home ++ [nameOf id]) = some (.index store)) :
    (retired w current).tree.item? (home ++ [nameOf id]) = some (.index store) ↔
      ∀ previous, current = some previous → nameOf previous.id = nameOf id →
        w.isHeld previous = true := by
  cases current with
  | none => exact ⟨fun _ _ h => (nomatch h), fun _ => hitem⟩
  | some previous =>
      have hedits := Workspace.edits_retire hlies hwf (hpath previous rfl)
      constructor
      · rintro hkept _ ⟨⟩ hname
        by_contra hheld
        have hgone := hlies.item?_removeStore hwf previous.id store
        rw [retired, Workspace.retire, if_neg hheld, hpath previous rfl, ← hname] at hkept
        exact hgone hkept
      · intro hheld
        rcases hedits.item? hwf hlies (nameOf id) with hsame | ⟨hname | hname, -⟩
        · exact hsame.trans hitem
        · rw [retired, Workspace.retire, if_pos (hheld previous rfl hname.symm)]
          exact hitem
        · exact absurd hname (nameOf_ne_journal id previous.id)

/-- A new generation is found in its file afterwards unless the one before takes it away. -/
theorem Makes.item?_done_iff (h : Makes home w p parse mode o id store built)
    (hwf : w.tree.WellFormed) (hlies : p.directory.LiesAt w.tree home)
    (hpath : ∀ g, p.current = some g → g.path = p.directory.fileFor g.id) {t : FileTree}
    (ht : p.directory.writeCurrent (stored home w.tree id store) id = (t, .ok ())) :
    (retired (openedIn w t) p.current).tree.item? (home ++ [nameOf id]) = some (.index store) ↔
      ∀ previous, p.current = some previous → nameOf previous.id = nameOf id →
        w.isHeld previous = true := by
  obtain ⟨hwf', hlies'⟩ := h.edits.wellFormed hwf hlies
  have hpointed := h.edits_pointed hwf hlies ht
  obtain ⟨hwf'', hlies''⟩ := hpointed.wellFormed hwf' hlies'
  have hitem : t.item? (home ++ [nameOf id]) = some (.index store) := by
    rcases hpointed.item? hwf' hlies' (nameOf id) with hsame | ⟨hname | hname, -⟩
    · exact hsame.trans (item?_stored home w.tree id store)
    · exact absurd hname (nameOf_ne_pointer id).1
    · exact absurd hname (nameOf_ne_pointer id).2
  exact item?_retired_iff (w := openedIn w t) hlies'' hwf'' hpath hitem

/-- The pointer can be set exactly if no directory is in the way of it. -/
theorem Makes.pointed_iff (h : Makes home w p parse mode o id store built)
    (hwf : w.tree.WellFormed) (hlies : p.directory.LiesAt w.tree home) {t : FileTree}
    {answer : Except Obstacle Unit}
    (ht : p.directory.writeCurrent (stored home w.tree id store) id = (t, answer)) :
    answer = .ok () ↔ w.tree.hasDirectory (home ++ [draftName]) = false ∧
      w.tree.hasDirectory (home ++ [currentName]) = false := by
  obtain ⟨hwf', hlies'⟩ := h.edits.wellFormed hwf hlies
  have hsame : ∀ name, nameOf id ≠ name → journalName id ≠ name →
      (stored home w.tree id store).hasDirectory (home ++ [name]) =
        w.tree.hasDirectory (home ++ [name]) := by
    intro name hfile hjournal
    rcases h.edits_stored.item? hwf hlies name with hitem | rfl | ⟨rfl, -⟩
    · rw [FileTree.hasDirectory, FileTree.hasDirectory, hitem]
    · exact absurd rfl hfile
    · exact absurd rfl hjournal
  have hok := hlies'.writeCurrent_ok_iff hwf' id
  rw [ht, hsame _ (nameOf_ne_pointer id).1 (journalName_ne_pointer id).1,
    hsame _ (nameOf_ne_pointer id).2 (journalName_ne_pointer id).2] at hok
  exact hok

/-- A build under the lock yields a store exactly if nothing is in its way and the store can be
drafted. -/
theorem Ends.yields_iff {step : Step Built} (h : Ends home w p parse mode o step)
    (hwf : w.tree.WellFormed) (hlies : p.directory.LiesAt w.tree home)
    (hpath : ∀ g, p.current = some g → g.path = p.directory.fileFor g.id) (store : Store) :
    step.Yields store ↔ ∃ id, Clear home w p id ∧
      ∃ built, Makes home w p parse mode o id store built := by
  cases h with
  | unwritten hmade =>
      constructor
      · rintro ⟨_, _, hanswer, -⟩
        cases hanswer
      · rintro ⟨id, -, built, hmakes⟩
        have hok := (makeNext_ok_iff hwf hlies).mpr ⟨store, hmakes, rfl⟩
        rw [hmade] at hok
        cases hok
  | removed hmakes hpointer =>
      constructor
      · rintro ⟨_, _, hanswer, -⟩
        cases hanswer
      · rintro ⟨id, hclear, built, hmakes'⟩
        have hok := (hmakes.pointed_iff hwf hlies hpointer).mpr ⟨hclear.draft, hclear.pointer⟩
        cases hok
  | @done id store' built t facts hmakes hfacts hpointer =>
      obtain ⟨hwf', hlies'⟩ := hmakes.edits.wellFormed hwf hlies
      have hedits := hmakes.edits_done hwf hlies hpath hpointer
      have hdone := (hedits.wellFormed hwf' hlies').2
      have hkept := hmakes.item?_done_iff hwf hlies hpath hpointer
      obtain ⟨hdraft, hpoints⟩ := (hmakes.pointed_iff hwf hlies hpointer).mp rfl
      constructor
      · rintro ⟨built', g, -, hg, hread⟩
        obtain rfl := Option.some.inj hg
        have hitem := (hdone.openStore_entry (isName_nameOf id)).mp hread
        have hold := hedits.storesFrom (fun _ _ hmay => hmay) hwf' hlies' _ store hitem
        rw [item?_stored] at hold
        cases hold
        exact ⟨id, ⟨hmakes.next, hmakes.free, hmakes.journal, hdraft, hpoints, hkept.mp hitem⟩,
          built, hmakes⟩
      · rintro ⟨id', hclear, built', hmakes'⟩
        obtain ⟨rfl, rfl, rfl⟩ := hmakes.unique hmakes'
        refine ⟨_, _, rfl, rfl, ?_⟩
        exact (hdone.openStore_entry (isName_nameOf _)).mpr (hkept.mpr hclear.kept)

/-- Where a build starts: in a tree that is in order, with a generation of the index directory. -/
structure Prepares (home : List String) (w : Workspace) (p : Project) : Prop where
  wellFormed : (seen w p).WellFormed
  lies : p.directory.LiesAt (seen w p) home
  path : ∀ g, (started w p).2.current = some g → g.path = p.directory.fileFor g.id

/-- The same of the workspace and the handle that a build under the lock starts from, and how such a
build ends. -/
theorem Prepares.ends (h : Prepares home w p) (parse : Chunk.Parse) (mode : BuildMode)
    (o : BuildOptions) :
    (started w p).1.tree.WellFormed ∧
      (started w p).2.directory.LiesAt (started w p).1.tree home ∧
      (∀ g, (started w p).2.current = some g → g.path = (started w p).2.directory.fileFor g.id) ∧
      Ends home (started w p).1 (started w p).2 parse mode o
        (buildLocked (w.lock p.directory).1 p parse mode o) := by
  rw [started_tree, started_directory]
  exact ⟨h.wellFormed, h.lies, h.path, buildLocked_ends h.wellFormed h.lies⟩

/-- A build yields a store exactly if the lock is free, nothing is in the way of a new generation,
and the store can be drafted. -/
theorem build_yields_iff (h : Prepares home w p) (store : Store) :
    (build w p parse mode o).Yields store ↔ (w.lock p.directory).2 = .ok true ∧
      ∃ id, Clear home (started w p).1 (started w p).2 id ∧
        ∃ base, baseOf (started w p).1 mode (started w p).2.current = .ok base ∧
          ∃ built, draft (seen w p) (p.context parse) o mode base id = .ok (store, built) := by
  obtain ⟨hwf, hlies, hpath, hends⟩ := h.ends parse mode o
  have hyields := hends.yields_iff hwf hlies hpath store
  by_cases hfree : (w.lock p.directory).2 = .ok true
  · have hbuild : (build w p parse mode o).Yields store ↔
        (buildLocked (w.lock p.directory).1 p parse mode o).Yields store := by
      rw [build_of_locked hfree, Step.Yields, Step.Yields]
      dsimp only
      rw [Workspace.unlock_tree]
    rw [hbuild, hyields]
    constructor
    · rintro ⟨id, hclear, built, hmakes⟩
      obtain ⟨base, hbase, hdraft⟩ := hmakes.drafted
      rw [started_tree, started_context] at hdraft
      exact ⟨hfree, id, hclear, base, hbase, built, hdraft⟩
    · rintro ⟨-, id, hclear, base, hbase, built, hdraft⟩
      rw [← started_tree, ← started_context] at hdraft
      exact ⟨id, hclear, built, hclear.next, ⟨base, hbase, hdraft⟩, hclear.free, hclear.journal⟩
  · obtain ⟨f, hbuild⟩ := build_of_not_locked hfree parse mode o
    rw [hbuild]
    constructor
    · rintro ⟨_, _, hanswer, -⟩
      cases hanswer
    · rintro ⟨hlocked, -⟩
      exact absurd hlocked hfree

/-- A full build starts from nothing. -/
theorem full_yields_iff (h : Prepares home w p) (store : Store) :
    (build w p parse .full o).Yields store ↔ (w.lock p.directory).2 = .ok true ∧
      ∃ id, Clear home (started w p).1 (started w p).2 id ∧
        ∃ built, draft (seen w p) (p.context parse) o .full none id = .ok (store, built) := by
  rw [build_yields_iff h]
  simp only [baseOf_full, Except.ok.injEq, exists_eq_left']

/-- An incremental build starts from the store of the generation in use. -/
theorem incremental_yields_iff (h : Prepares home w p) {g : Generation}
    (hg : (started w p).2.current = some g) (hints : Option (List Path)) (store : Store) :
    (build w p parse (.incremental hints) o).Yields store ↔ (w.lock p.directory).2 = .ok true ∧
      ∃ id, Clear home (started w p).1 (started w p).2 id ∧
        ∃ earlier, g.reader (seen w p) "failed to prepare query" "files" = .ok earlier ∧
          ∃ built, draft (seen w p) (p.context parse) o (.incremental hints)
            (some { facts := g.facts, store := earlier }) id = .ok (store, built) := by
  rw [build_yields_iff h, hg, baseOf_incremental, started_tree]
  cases g.reader (seen w p) "failed to prepare query" "files" with
  | error f => simp [Except.map]
  | ok earlier => simp [Except.map]

end Project

end SourceIndex
