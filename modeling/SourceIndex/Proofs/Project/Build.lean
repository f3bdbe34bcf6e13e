import Mathlib
import SourceIndex.Proofs.Project.Draft

/-! # What a build does

A build under the lock ends in one of three ways: no generation was written, the new file was removed
again, or the new generation is in use (`Project.Ends`, `Project.buildLocked_ends`). In the index
directory only a build that succeeds leaves a store that was not there (`Leaves.edits`,
`Makes.edits_removed`, `Makes.edits_done`).
-/

set_option autoImplicit false

namespace SourceIndex

open IndexDirectory

-- names of files are not to be computed
attribute [local irreducible] nameOf journalName

/-! ## Stores of a directory -/

/-- Every index store in the directory at `home` was there before. -/
def StoresFrom (home : List String) (t t' : FileTree) : Prop :=
  ∀ name store, t'.item? (home ++ [name]) = some (.index store) →
    t.item? (home ++ [name]) = some (.index store)

theorem StoresFrom.refl (home : List String) (t : FileTree) : StoresFrom home t t :=
  fun _ _ h => h

/-- Edits that write no store. -/
theorem IndexDirectory.Edits.storesFrom {d : IndexDirectory} {home : List String}
    {may : String → Option FileItem → Prop} {t t' : FileTree} (h : Edits home may t t')
    (hmay : ∀ name file, may name file → ∀ store, file ≠ some (.index store))
    (hwf : t.WellFormed) (hd : d.LiesAt t home) : StoresFrom home t t' := by
  intro name store hstore
  rcases h.item? hwf hd name with hsame | hnew
  · exact hsame ▸ hstore
  · exact absurd hstore (hmay name _ hnew store)

/-! ## Opening -/

/-- A generation is what its file in a directory says. -/
structure Told (d : IndexDirectory) (t : FileTree) (home : List String) (g : Generation) :
    Prop where
  path : g.path = d.fileFor g.id
  store : ∃ store, t.item? (home ++ [nameOf g.id]) = some (.index store) ∧
    store.facts = some g.facts

/-- What is opened has the number and the path that were asked for. -/
theorem Workspace.opened_eq {w w' : Workspace} {id : Nat} {path : Path} {g : Generation}
    (h : w.openGeneration id path = .ok (w', g)) :
    w' = { w with nextToken := w.nextToken + 1 } ∧ g.id = id ∧ g.path = path := by
  obtain ⟨hopen, hw⟩ := (Workspace.openGeneration_ok_iff w w' id path g).mp h
  refine ⟨hw, ?_⟩
  rw [Generation.openAt] at hopen
  split at hopen
  · cases hopen
  · split at hopen
    · cases hopen
    · obtain rfl := Except.ok.inj hopen
      exact ⟨rfl, rfl⟩

/-- What is opened is told by its file. -/
theorem Workspace.told_of_opened {w w' : Workspace} {d : IndexDirectory} {home : List String}
    {id : Nat} {g : Generation} (hlies : d.LiesAt w.tree home)
    (h : w.openGeneration id (d.fileFor id) = .ok (w', g)) : Told d w.tree home g := by
  obtain ⟨-, hid, hpath⟩ := Workspace.opened_eq h
  obtain ⟨hopen, -⟩ := (Workspace.openGeneration_ok_iff w w' id _ g).mp h
  obtain ⟨store, hstore, hfacts, -, -⟩ := (Generation.openAt_ok_iff hlies _ id).mp hopen
  rw [← hid] at hpath hstore
  exact ⟨hpath, store, hstore, hfacts⟩

namespace Project

/-- What a new handle holds is the generation in use, opened from its file. -/
theorem loadCurrent_spec (w : Workspace) (d : IndexDirectory) :
    (loadCurrent w d).1.tree = w.tree ∧ ∀ g, (loadCurrent w d).2 = some g →
      d.readCurrent w.tree = .ok (some g.id) ∧
        ∃ w', w.openGeneration g.id (d.fileFor g.id) = .ok (w', g) := by
  rw [loadCurrent]
  split
  · rename_i id hread
    split
    · rename_i w' g hopen
      obtain ⟨hw, hid, -⟩ := Workspace.opened_eq hopen
      refine ⟨by rw [hw], fun g' hg' => ?_⟩
      obtain rfl := Option.some.inj hg'
      rw [hid]
      exact ⟨hread, w', hopen⟩
    · exact ⟨rfl, fun _ hg => nomatch hg⟩
  · exact ⟨rfl, fun _ hg => nomatch hg⟩
  · exact ⟨rfl, fun _ hg => nomatch hg⟩

/-- Loading the generation in use takes a token at most. -/
theorem loadCurrent_workspace (w : Workspace) (d : IndexDirectory) :
    ∃ nextToken, (loadCurrent w d).1 = { w with nextToken } := by
  rw [loadCurrent]
  split
  · split
    · rename_i hopen
      exact ⟨_, (Workspace.opened_eq hopen).1⟩
    · exact ⟨_, rfl⟩
  · exact ⟨_, rfl⟩
  · exact ⟨_, rfl⟩

/-- Looking for a newer generation opens one at most, and that is the one in use. -/
theorem refresh_spec (w : Workspace) (p : Project) :
    (p.refresh w).1.tree = w.tree ∧ ((p.refresh w).2 = p ∨
      ∃ g w', p.directory.readCurrent w.tree = .ok (some g.id) ∧
        w.openGeneration g.id (p.directory.fileFor g.id) = .ok (w', g) ∧
        (p.refresh w).2 = { p with current := some g }) := by
  rw [refresh]
  split
  · exact ⟨rfl, Or.inl rfl⟩
  · exact ⟨rfl, Or.inl rfl⟩
  · rename_i id hread
    split
    · exact ⟨rfl, Or.inl rfl⟩
    · split
      · exact ⟨rfl, Or.inl rfl⟩
      · rename_i w' g hopen
        obtain ⟨hw, rfl, -⟩ := Workspace.opened_eq hopen
        have htree : w'.tree = w.tree := by rw [hw]
        split
        · split
          · exact ⟨htree, Or.inl rfl⟩
          · exact ⟨htree, Or.inr ⟨g, w', hread, hopen, rfl⟩⟩
        · exact ⟨htree, Or.inr ⟨g, w', hread, hopen, rfl⟩⟩

/-- Nothing else changes in the workspace. -/
theorem refresh_workspace (w : Workspace) (p : Project) :
    ∃ nextToken, (p.refresh w).1 = { w with nextToken } := by
  rw [refresh]
  split
  · exact ⟨_, rfl⟩
  · exact ⟨_, rfl⟩
  · split
    · exact ⟨_, rfl⟩
    · split
      · exact ⟨_, rfl⟩
      · rename_i w' g hopen
        obtain ⟨hw, -, -⟩ := Workspace.opened_eq hopen
        split
        · split
          · exact ⟨_, hw⟩
          · exact ⟨_, hw⟩
        · exact ⟨_, hw⟩

@[simp] theorem refresh_tree (w : Workspace) (p : Project) : (p.refresh w).1.tree = w.tree :=
  (refresh_spec w p).1

/-- Nothing else changes of the handle. -/
theorem refresh_project (w : Workspace) (p : Project) :
    (p.refresh w).2 = { p with current := (p.refresh w).2.current } := by
  rcases (refresh_spec w p).2 with hsame | ⟨g, -, -, -, hnew⟩
  · rw [hsame]
  · rw [hnew]

@[simp] theorem refresh_root (w : Workspace) (p : Project) : (p.refresh w).2.root = p.root := by
  rw [refresh_project]

@[simp] theorem refresh_directory (w : Workspace) (p : Project) :
    (p.refresh w).2.directory = p.directory := by
  rw [refresh_project]

@[simp] theorem refresh_context (w : Workspace) (p : Project) (parse : Chunk.Parse) :
    (p.refresh w).2.context parse = p.context parse := by
  rw [refresh_project]
  rfl

/-- A handle is made at a place of the tree, with what is in use there. If the lock is free, then all
other generations are cleared away. -/
theorem openAt_spec {w w' : Workspace} {root : Path} {settings : Settings}
    {model : Option EmbeddingModel} {p : Project}
    (h : openAt w root settings model = (w', .ok p)) :
    p.settings = settings ∧ p.model = model ∧
      ∃ tree, w.tree.makeDirectory p.directory.path = .ok tree ∧
        p.current = (loadCurrent ({ w with tree }.lock p.directory).1 p.directory).2 ∧
        w' = if ({ w with tree }.lock p.directory).2 = .ok true then
            { (loadCurrent ({ w with tree }.lock p.directory).1 p.directory).1 with
              tree := p.directory.sweep ({ w with tree }.lock p.directory).1.tree
                (p.current.map Generation.id) }.unlock p.directory
          else (loadCurrent ({ w with tree }.lock p.directory).1 p.directory).1 := by
  rw [openAt] at h
  split at h
  · cases h
  · dsimp only at h
    split at h
    · cases h
    · rename_i _ names _ _ tree hmake
      obtain ⟨hw, hp⟩ := Prod.mk.inj h
      obtain rfl := Except.ok.inj hp
      refine ⟨rfl, rfl, tree, hmake, rfl, ?_⟩
      dsimp only at hw ⊢
      have hload := (loadCurrent_spec ({ w with tree }.lock
        ⟨settings.dataDirectory (FileTree.pathOf names)⟩).1
        ⟨settings.dataDirectory (FileTree.pathOf names)⟩).1
      rw [← hw, hload]
      split
      · rename_i hfree
        rw [if_pos hfree]
      · rename_i hheld
        rw [if_neg (by simp [hheld])]
      · rename_i hfailed
        rw [if_neg (by simp [hfailed])]

/-- Its files are what the lock left of them, but for generations that were cleared away. -/
theorem openAt_tree {w w' : Workspace} {root : Path} {settings : Settings}
    {model : Option EmbeddingModel} {p : Project}
    (h : openAt w root settings model = (w', .ok p)) :
    ∃ tree, w.tree.makeDirectory p.directory.path = .ok tree ∧
      (w'.tree = ({ w with tree }.lock p.directory).1.tree ∨
        ∃ keep, w'.tree = p.directory.sweep ({ w with tree }.lock p.directory).1.tree keep) := by
  obtain ⟨-, -, tree, hmake, -, hw⟩ := openAt_spec h
  refine ⟨tree, hmake, ?_⟩
  rw [hw]
  split
  · rw [Workspace.unlock_tree]
    exact Or.inr ⟨_, rfl⟩
  · exact Or.inl (loadCurrent_spec _ _).1

/-! ## How a build ends -/

/-- An incremental build starts from the generation that the handle holds. -/
theorem baseOf_eq_some_iff {w : Workspace} {mode : BuildMode} {current : Option Generation}
    {b : BuildBase} :
    baseOf w mode current = .ok (some b) ↔ ∃ hints g, mode = .incremental hints ∧
      current = some g ∧ g.reader w.tree "failed to prepare query" "files" = .ok b.store ∧
      b.facts = g.facts := by
  unfold baseOf
  split
  · rename_i hints g
    cases hread : g.reader w.tree "failed to prepare query" "files" with
    | error f => simp [hread]
    | ok store =>
        simp only [Except.ok.injEq, Option.some.injEq]
        constructor
        · rintro rfl
          exact ⟨hints, g, rfl, rfl, hread, rfl⟩
        · rintro ⟨hints', g', -, rfl, hread', hfacts⟩
          rw [hread] at hread'
          obtain rfl := Except.ok.inj hread'
          rw [← hfacts]
  · rename_i hfull
    constructor
    · intro h
      cases h
    · rintro ⟨hints, g, rfl, rfl, -, -⟩
      exact absurd rfl (hfull hints g rfl)

/-- A build makes a store for a new generation: it can be drafted, its file is not there, and no
directory has the name of its journal. -/
structure Makes (home : List String) (w : Workspace) (p : Project) (parse : Chunk.Parse)
    (mode : BuildMode) (o : BuildOptions) (id : Nat) (store : Store) (built : Built) : Prop where
  next : p.directory.nextId w.tree = .ok id
  drafted : ∃ base, baseOf w mode p.current = .ok base ∧
    draft w.tree (p.context parse) o mode base id = .ok (store, built)
  free : w.tree.item? (home ++ [nameOf id]) = none
  journal : w.tree.hasDirectory (home ++ [journalName id]) = false

/-- A draft has the facts of the build, which can be read again. -/
theorem readFacts_of_draft {t : FileTree} {x : BuildContext} {o : BuildOptions} {mode : BuildMode}
    {base : Option BuildBase} {id : Nat} {store : Store} {built : Built}
    (h : draft t x o mode base id = .ok (store, built)) :
    ∃ facts, store.facts = some facts ∧ facts.schema = Store.schemaVersion := by
  obtain ⟨p, q, -, -, hstore, -, -⟩ := draft_ok_iff.mp h
  exact ⟨_, (chunks_of_storeOf hstore).2, rfl⟩

/-- A build with hints, or without, needs the store of the generation in use. -/
theorem baseOf_incremental (w : Workspace) (hints : Option (List Path)) (g : Generation) :
    baseOf w (.incremental hints) (some g) =
      (g.reader w.tree "failed to prepare query" "files").map fun store =>
        some { facts := g.facts, store } := by
  rw [baseOf]
  cases g.reader w.tree "failed to prepare query" "files" with
  | error f => rfl
  | ok store => rfl

theorem baseOf_full (w : Workspace) (current : Option Generation) :
    baseOf w .full current = .ok none := by
  unfold baseOf
  rfl

variable {home : List String} {w : Workspace} {p : Project} {parse : Chunk.Parse}
  {mode : BuildMode} {o : BuildOptions} {id : Nat} {store : Store} {built : Built}

/-- The new generation, as it is opened from its file. -/
def opened (w : Workspace) (p : Project) (id : Nat) (facts : BuildFacts) : Generation where
  token := w.nextToken
  id := id
  path := p.directory.fileFor id
  facts := facts

/-- What a build makes is determined. -/
theorem Makes.unique {id' : Nat} {store' : Store} {built' : Built}
    (h : Makes home w p parse mode o id store built)
    (h' : Makes home w p parse mode o id' store' built') :
    id' = id ∧ store' = store ∧ built' = built := by
  have hid := h'.next
  rw [h.next] at hid
  obtain rfl := Except.ok.inj hid
  obtain ⟨base, hbase, hdraft⟩ := h.drafted
  obtain ⟨base', hbase', hdraft'⟩ := h'.drafted
  rw [hbase] at hbase'
  obtain rfl := Except.ok.inj hbase'
  rw [hdraft] at hdraft'
  obtain ⟨rfl, rfl⟩ := Prod.mk.inj (Except.ok.inj hdraft')
  exact ⟨rfl, rfl, rfl⟩

theorem makeNext_ok_iff (hwf : w.tree.WellFormed) (hlies : p.directory.LiesAt w.tree home)
    {t : FileTree} :
    makeNext w p parse mode o = (t, .ok (id, built)) ↔
      ∃ store, Makes home w p parse mode o id store built ∧ t = stored home w.tree id store := by
  unfold makeNext
  constructor
  · intro h
    split at h
    · exact nomatch (Prod.mk.inj h).2
    · rename_i id' hid
      split at h
      · exact nomatch (Prod.mk.inj h).2
      · rename_i base hbase
        cases hwritten : write w.tree p.directory (p.context parse) o mode base id' with
        | mk tree made =>
            rw [hwritten] at h
            obtain ⟨rfl, hmade⟩ := Prod.mk.inj h
            cases made with
            | error f => cases hmade
            | ok built' =>
                obtain ⟨rfl, rfl⟩ := Prod.mk.inj (Except.ok.inj hmade)
                obtain ⟨store, hdraft, hfree, hjournal, rfl⟩ := (write_ok_iff hlies hwf).mp hwritten
                exact ⟨store, ⟨hid, ⟨base, hbase, hdraft⟩, hfree, hjournal⟩, rfl⟩
  · rintro ⟨store, ⟨hid, ⟨base, hbase, hdraft⟩, hfree, hjournal⟩, rfl⟩
    have hwritten := (write_ok_iff hlies hwf).mpr ⟨store, hdraft, hfree, hjournal, rfl⟩
    simp only [hid, hbase, hwritten]
    rfl

/-- A build that writes no generation leaves next to nothing. -/
theorem makeNext_error (hwf : w.tree.WellFormed) (hlies : p.directory.LiesAt w.tree home)
    {t : FileTree} {f : Fault} (h : makeNext w p parse mode o = (t, .error f)) :
    t = w.tree ∨ ∃ id, p.directory.nextId w.tree = .ok id ∧
      Leaves home p.directory w.tree id t := by
  unfold makeNext at h
  split at h
  · exact Or.inl (Prod.mk.inj h).1.symm
  · rename_i id hid
    split at h
    · exact Or.inl (Prod.mk.inj h).1.symm
    · rename_i base hbase
      cases hwritten : write w.tree p.directory (p.context parse) o mode base id with
      | mk tree made =>
          rw [hwritten] at h
          obtain ⟨rfl, hmade⟩ := Prod.mk.inj h
          cases made with
          | ok built => cases hmade
          | error f' => exact Or.inr ⟨id, hid, write_error hlies hwf hwritten⟩

/-- The workspace once the generation before was retired. -/
def retired (w : Workspace) : Option Generation → Workspace
  | some previous => w.retire previous
  | none => w

theorem install_ok {g : Generation} {t : FileTree}
    (h : p.directory.writeCurrent w.tree g.id = (t, .ok ())) :
    install w p g = { workspace := retired { w with tree := t } p.current
                      project := { p with current := some g }, answer := .ok () } := by
  rw [install, h]
  cases p.current with
  | none => rfl
  | some previous => rfl

theorem install_error {g : Generation} {t : FileTree} {obstacle : Obstacle}
    (h : p.directory.writeCurrent w.tree g.id = (t, .error obstacle)) :
    install w p g = { workspace := { w with tree := removeStore t g.path }
                      project := p, answer := .error obstacle.fault } := by
  rw [install, h]

/-- The workspace in which a new generation was opened. -/
def openedIn (w : Workspace) (t : FileTree) : Workspace :=
  { w with tree := t, nextToken := w.nextToken + 1 }

/-- A new generation in its file can be opened. -/
theorem finish_eq (hlies : p.directory.LiesAt (stored home w.tree id store) home)
    {facts : BuildFacts} (hfacts : store.facts = some facts)
    (hschema : facts.schema = Store.schemaVersion) :
    finish { w with tree := stored home w.tree id store } p id built =
      { install (openedIn w (stored home w.tree id store)) p (opened w p id facts) with
        answer := (install (openedIn w (stored home w.tree id store)) p
          (opened w p id facts)).answer.map fun _ => built } := by
  have hopen : { w with tree := stored home w.tree id store }.openGeneration id
      (p.directory.fileFor id) =
      .ok (openedIn w (stored home w.tree id store), opened w p id facts) := by
    refine (Workspace.openGeneration_ok_iff _ _ _ _ _).mpr ⟨?_, rfl⟩
    refine (Generation.openAt_ok_iff hlies _ _).mpr ⟨store, ?_, hfacts, hschema, rfl⟩
    exact item?_stored home w.tree id store
  unfold finish
  simp only [hopen]

/-- The ways in which a build under the lock ends: no generation is written, or the new file is
removed again since the pointer cannot be replaced, or the new generation is in use. -/
inductive Ends (home : List String) (w : Workspace) (p : Project) (parse : Chunk.Parse)
    (mode : BuildMode) (o : BuildOptions) : Step Built → Prop where
  | unwritten {t f} : makeNext w p parse mode o = (t, .error f) →
      Ends home w p parse mode o { workspace := { w with tree := t }, project := p, answer := .error f }
  | removed {id store built t obstacle} : Makes home w p parse mode o id store built →
      p.directory.writeCurrent (stored home w.tree id store) id = (t, .error obstacle) →
      Ends home w p parse mode o
        { workspace := openedIn w (removeStore t (p.directory.fileFor id))
          project := p, answer := .error obstacle.fault }
  | done {id store built t facts} : Makes home w p parse mode o id store built →
      store.facts = some facts →
      p.directory.writeCurrent (stored home w.tree id store) id = (t, .ok ()) →
      Ends home w p parse mode o
        { workspace := retired (openedIn w t) p.current
          project := { p with current := some (opened w p id facts) }, answer := .ok built }

theorem Makes.edits_stored (h : Makes home w p parse mode o id store built) :
    Edits home (mayStore id) w.tree (stored home w.tree id store) :=
  IndexDirectory.edits_stored h.free h.journal store

theorem finish_ends (hwf : w.tree.WellFormed) (hlies : p.directory.LiesAt w.tree home)
    (h : Makes home w p parse mode o id store built) :
    Ends home w p parse mode o
      (finish { w with tree := stored home w.tree id store } p id built) := by
  obtain ⟨base, -, hdraft⟩ := h.drafted
  obtain ⟨facts, hfacts, hschema⟩ := readFacts_of_draft hdraft
  rw [finish_eq (h.edits_stored.wellFormed hwf hlies).2 hfacts hschema]
  cases hpointer : p.directory.writeCurrent (stored home w.tree id store) id with
  | mk t answer =>
      cases answer with
      | error obstacle =>
          have hinstall : install (openedIn w (stored home w.tree id store)) p
              (opened w p id facts) = _ := install_error hpointer
          rw [hinstall]
          exact .removed h hpointer
      | ok _ =>
          have hinstall : install (openedIn w (stored home w.tree id store)) p
              (opened w p id facts) = _ := install_ok hpointer
          rw [hinstall]
          exact .done h hfacts hpointer

/-- A build under the lock ends in one of these ways. -/
theorem buildLocked_ends (hwf : w.tree.WellFormed) (hlies : p.directory.LiesAt w.tree home) :
    Ends home (p.refresh w).1 (p.refresh w).2 parse mode o (buildLocked w p parse mode o) := by
  unfold buildLocked
  rw [← refresh_tree w p] at hwf hlies
  rw [← refresh_directory w p] at hlies
  generalize p.refresh w = r at hwf hlies ⊢
  dsimp only
  cases hnext : makeNext r.1 r.2 parse mode o with
  | mk t made =>
      cases made with
      | error f => exact .unwritten hnext
      | ok made =>
          obtain ⟨store, hmakes, rfl⟩ := (makeNext_ok_iff hwf hlies).mp hnext
          exact finish_ends hwf hlies hmakes

theorem buildLocked_of_error {t : FileTree} {f : Fault}
    (h : makeNext (p.refresh w).1 (p.refresh w).2 parse mode o = (t, .error f)) :
    buildLocked w p parse mode o =
      { workspace := { (p.refresh w).1 with tree := t }
        project := (p.refresh w).2, answer := .error f } := by
  unfold buildLocked
  generalize p.refresh w = r at h ⊢
  dsimp only
  rw [h]

/-- Without the lock nothing is built. -/
theorem build_of_not_locked (h : (w.lock p.directory).2 ≠ .ok true) (parse : Chunk.Parse)
    (mode : BuildMode) (o : BuildOptions) :
    ∃ f, build w p parse mode o =
      { workspace := (w.lock p.directory).1, project := p, answer := .error f } := by
  unfold build
  generalize w.lock p.directory = locked at h ⊢
  split
  · exact ⟨_, rfl⟩
  · exact ⟨_, rfl⟩
  · exact absurd rfl h

/-- A build that succeeds has had the lock. -/
theorem lock_of_build_ok (h : (build w p parse mode o).answer = .ok built) :
    (w.lock p.directory).2 = .ok true := by
  by_contra hlocked
  obtain ⟨f, hfails⟩ := build_of_not_locked hlocked parse mode o
  rw [hfails] at h
  cases h

theorem build_of_locked (h : (w.lock p.directory).2 = .ok true) (parse : Chunk.Parse)
    (mode : BuildMode) (o : BuildOptions) :
    build w p parse mode o =
      { buildLocked (w.lock p.directory).1 p parse mode o with
        workspace := (buildLocked (w.lock p.directory).1 p parse mode o).workspace.unlock
          p.directory } := by
  unfold build
  generalize w.lock p.directory = locked at h ⊢
  obtain ⟨w', answer⟩ := locked
  obtain rfl : answer = .ok true := h
  rfl

/-- The tree that a build sees, once it holds the lock. -/
def seen (w : Workspace) (p : Project) : FileTree := (w.lock p.directory).1.tree

/-- The workspace and the handle that a build starts from. -/
def started (w : Workspace) (p : Project) : Workspace × Project :=
  p.refresh (w.lock p.directory).1

@[simp] theorem started_tree (w : Workspace) (p : Project) : (started w p).1.tree = seen w p :=
  refresh_tree _ _

@[simp] theorem started_directory (w : Workspace) (p : Project) :
    (started w p).2.directory = p.directory :=
  refresh_directory _ _

@[simp] theorem started_context (w : Workspace) (p : Project) (parse : Chunk.Parse) :
    (started w p).2.context parse = p.context parse :=
  refresh_context _ _ _

/-! ## The files after a build -/

/-- Only the file of a generation becomes a store. -/
def mayBuild (id : Nat) (name : String) (file : Option FileItem) : Prop :=
  name = nameOf id ∨ ∀ store, file ≠ some (.index store)

theorem storesFrom_of_gone {d : IndexDirectory} {t t' : FileTree}
    (h : Edits home (mayBuild id) t t') (hwf : t.WellFormed) (hd : d.LiesAt t home)
    (hgone : ∀ store, t'.item? (home ++ [nameOf id]) ≠ some (.index store)) :
    StoresFrom home t t' := by
  intro name store hstore
  rcases h.item? hwf hd name with hsame | rfl | hother
  · rw [← hsame]
    exact hstore
  · exact absurd hstore (hgone store)
  · exact absurd hstore (hother store)

theorem mayBuild_of_mayStore {name : String} {file : Option FileItem} (h : mayStore id name file) :
    mayBuild id name file := by
  rcases h with hname | ⟨-, rfl⟩
  · exact Or.inl hname
  · exact Or.inr nofun

theorem Makes.edits (h : Makes home w p parse mode o id store built) :
    Edits home (mayBuild id) w.tree (stored home w.tree id store) :=
  h.edits_stored.mono fun _ _ => mayBuild_of_mayStore

theorem mayBuild_of_mayPoint {name : String} {file : Option FileItem} (h : mayPoint name file) :
    mayBuild id name file :=
  Or.inr h.2

theorem mayBuild_of_mayRemove {k : Nat} {name : String} {file : Option FileItem}
    (h : mayRemove k name file) : mayBuild id name file := by
  refine Or.inr fun store hstore => ?_
  rw [h.2] at hstore
  cases hstore

/-- A build that has put nothing into its file leaves no store that was not there. -/
theorem Leaves.edits {d : IndexDirectory} {t t' : FileTree} (h : Leaves home d t id t')
    (hwf : t.WellFormed) (hlies : d.LiesAt t home) :
    Edits home (mayBuild id) t t' ∧ StoresFrom home t t' := by
  have hmade : ∀ {t'}, Edits home (mayBuild id) t t' →
      (∀ store, t'.item? (home ++ [nameOf id]) ≠ some (.index store)) →
      Edits home (mayBuild id) t t' ∧ StoresFrom home t t' :=
    fun hedits hgone => ⟨hedits, storesFrom_of_gone hedits hwf hlies hgone⟩
  cases h with
  | same => exact ⟨.refl, .refl _ _⟩
  | empty hfree _ =>
      refine hmade (.write .refl (isName_nameOf id) ?_ rfl (Or.inl rfl)) fun store hstore => ?_
      · rw [FileTree.hasDirectory, hfree]
      · rw [FileTree.item?_set_self _ (by simp)] at hstore
        cases hstore
  | undone hfree hjournal =>
      have hstored := IndexDirectory.edits_stored hfree hjournal .empty
      obtain ⟨hwf', hlies'⟩ := hstored.wellFormed hwf hlies
      refine hmade ?_ (hlies'.item?_removeStore hwf' id)
      exact (hstored.mono fun _ _ => mayBuild_of_mayStore).trans
        ((hlies'.edits_removeStore hwf' id).mono fun _ _ => mayBuild_of_mayRemove)

/-- The pointer is set in a tree that has the new generation. -/
theorem Makes.edits_pointed (h : Makes home w p parse mode o id store built)
    (hwf : w.tree.WellFormed) (hlies : p.directory.LiesAt w.tree home) {t : FileTree}
    {answer : Except Obstacle Unit}
    (ht : p.directory.writeCurrent (stored home w.tree id store) id = (t, answer)) :
    Edits home mayPoint (stored home w.tree id store) t := by
  obtain ⟨hwf', hlies'⟩ := h.edits.wellFormed hwf hlies
  have hpointed := hlies'.edits_writeCurrent hwf' id
  rw [ht] at hpointed
  exact hpointed

/-- What a build that failed leaves is what there was, as far as stores go. -/
theorem Makes.edits_removed (h : Makes home w p parse mode o id store built)
    (hwf : w.tree.WellFormed) (hlies : p.directory.LiesAt w.tree home) {t : FileTree}
    {answer : Except Obstacle Unit}
    (ht : p.directory.writeCurrent (stored home w.tree id store) id = (t, answer)) :
    Edits home (mayBuild id) w.tree (removeStore t (p.directory.fileFor id)) ∧
      StoresFrom home w.tree (removeStore t (p.directory.fileFor id)) := by
  have hpointed := h.edits.trans
    ((h.edits_pointed hwf hlies ht).mono fun _ _ => mayBuild_of_mayPoint)
  obtain ⟨hwf', hlies'⟩ := hpointed.wellFormed hwf hlies
  have hremoved := hpointed.trans
    ((hlies'.edits_removeStore hwf' id).mono fun _ _ => mayBuild_of_mayRemove)
  exact ⟨hremoved, storesFrom_of_gone hremoved hwf hlies (hlies'.item?_removeStore hwf' id)⟩

/-- Retiring a generation takes its file away at most. -/
theorem edits_retired {d : IndexDirectory} (hlies : d.LiesAt w.tree home)
    (hwf : w.tree.WellFormed) {current : Option Generation}
    (hpath : ∀ g, current = some g → g.path = d.fileFor g.id) :
    Edits home (fun name file => ∃ g, current = some g ∧ mayRemove g.id name file) w.tree
      (retired w current).tree := by
  cases current with
  | none => exact .refl
  | some g =>
      exact (Workspace.edits_retire hlies hwf (hpath g rfl)).mono fun _ _ h => ⟨g, rfl, h⟩

/-- The stores after a build are those before it and the new one. -/
theorem Makes.edits_done (h : Makes home w p parse mode o id store built)
    (hwf : w.tree.WellFormed) (hlies : p.directory.LiesAt w.tree home)
    (hpath : ∀ g, p.current = some g → g.path = p.directory.fileFor g.id) {t : FileTree}
    {answer : Except Obstacle Unit}
    (ht : p.directory.writeCurrent (stored home w.tree id store) id = (t, answer)) :
    Edits home (fun _ file => ∀ store, file ≠ some (.index store)) (stored home w.tree id store)
      (retired (openedIn w t) p.current).tree := by
  obtain ⟨hwf', hlies'⟩ := h.edits.wellFormed hwf hlies
  have hpointed := h.edits_pointed hwf hlies ht
  obtain ⟨hwf'', hlies''⟩ := hpointed.wellFormed hwf' hlies'
  have hretired : Edits home _ t (retired (openedIn w t) p.current).tree :=
    edits_retired (w := openedIn w t) hlies'' hwf'' hpath
  refine (hpointed.mono fun _ _ hmay => hmay.2).trans (hretired.mono ?_)
  rintro name file ⟨g, -, -, rfl⟩ store hstore
  cases hstore

end Project

end SourceIndex
