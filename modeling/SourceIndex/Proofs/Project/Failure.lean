import Mathlib
import SourceIndex.Proofs.Project.Answers

/-! # What a failed build leaves

A build that fails leaves the pointer and the files of the generations as they were, frees the lock
and changes no answer (`Project.build_error_undone`). There is one exception: if the file of the new
generation was made, but no store could be created in it since a directory has the name of its
journal, then the file stays (`Project.leftover_smallBlocked`).
-/

set_option autoImplicit false

namespace SourceIndex

open IndexDirectory

/-! ## What an index holds -/

namespace IndexDirectory

/-- A name that is neither that of the lock file nor of a draft or a journal, which are there only
while a build runs. So the pointer and the files of the generations have such names. -/
def IsHolding (name : String) : Prop :=
  name ≠ lockName ∧ name ≠ draftName ∧ ∀ id, name ≠ journalName id

/-- All files are the same but the lock file, drafts and journals of the index. -/
def SameHoldings (home : List String) (t t' : FileTree) : Prop :=
  ∀ names, (∀ name, names = home ++ [name] → IsHolding name) → t'.item? names = t.item? names

theorem isHolding_currentName : IsHolding currentName :=
  ⟨by decide, by decide, fun id h => (journalName_ne_pointer id).1 h.symm⟩

theorem isHolding_nameOf (id : Nat) : IsHolding (nameOf id) :=
  ⟨nameOf_ne_lock id, (nameOf_ne_pointer id).2, nameOf_ne_journal id⟩

-- from here on, names of files are not to be computed
attribute [local irreducible] nameOf journalName

variable {d : IndexDirectory} {home : List String} {t t' t'' : FileTree} {id : Nat}

theorem SameHoldings.refl (home : List String) (t : FileTree) : SameHoldings home t t :=
  fun _ _ => rfl

theorem SameHoldings.trans (h : SameHoldings home t t') (h' : SameHoldings home t' t'') :
    SameHoldings home t t'' :=
  fun names hnames => (h' names hnames).trans (h names hnames)

/-- What the index holds is the same. -/
theorem SameHoldings.item? (h : SameHoldings home t t') {name : String} (hname : IsHolding name) :
    t'.item? (home ++ [name]) = t.item? (home ++ [name]) := by
  refine h _ fun other hsame => ?_
  obtain rfl : name = other := (List.cons.inj (List.append_cancel_left hsame)).1
  exact hname

/-- It is the same if no name that says something has got anything else. -/
theorem Edits.sameHoldings {may : String → Option FileItem → Prop} (h : Edits home may t t')
    (hwf : t.WellFormed) (hlies : d.LiesAt t home)
    (hsame : ∀ name, IsHolding name → may name (t'.item? (home ++ [name])) →
      t'.item? (home ++ [name]) = t.item? (home ++ [name])) : SameHoldings home t t' := by
  intro names hnames
  by_cases hhome : ∃ name, names = home ++ [name]
  · obtain ⟨name, rfl⟩ := hhome
    exact (h.item? hwf hlies name).elim id (hsame name (hnames name rfl))
  · exact h.item?_elsewhere hwf hlies fun name hname => hhome ⟨name, hname⟩

/-- Only the file of one generation, its journal and the draft of the pointer change. -/
def mayTouch (id : Nat) (name : String) (_ : Option FileItem) : Prop :=
  name = nameOf id ∨ name = journalName id ∨ name = draftName

theorem mayTouch_of_mayStore {name : String} {file : Option FileItem} (h : mayStore id name file) :
    mayTouch id name file :=
  h.imp_right fun hjournal => Or.inl hjournal.1

theorem mayTouch_of_mayRemove {name : String} {file : Option FileItem}
    (h : mayRemove id name file) : mayTouch id name file :=
  h.1.imp_right Or.inl

/-- What was done for a new generation is undone: the file is what it was, and if there was neither a
stale journal nor a draft, so is the tree. -/
structure Undone (home : List String) (t t' : FileTree) (id : Nat) : Prop where
  edits : Edits home (mayTouch id) t t'
  file : t'.item? (home ++ [nameOf id]) = t.item? (home ++ [nameOf id])
  eq : t.item? (home ++ [journalName id]) = none → t.item? (home ++ [draftName]) = none → t' = t

/-- The tree is still in order, with the index in its place, and the index holds the same. -/
structure Kept (home : List String) (t t' : FileTree) : Prop where
  wellFormed : t'.WellFormed
  lies : ∀ d : IndexDirectory, d.LiesAt t home → d.LiesAt t' home
  holdings : SameHoldings home t t'

theorem Kept.refl (hwf : t.WellFormed) : Kept home t t :=
  ⟨hwf, fun _ => id, .refl _ _⟩

theorem Kept.trans (h : Kept home t t') (h' : Kept home t' t'') : Kept home t t'' :=
  ⟨h'.wellFormed, fun d hd => h'.lies d (h.lies d hd), h.holdings.trans h'.holdings⟩

/-- Taking the build lock changes nothing that the index holds. -/
theorem kept_lock {w : Workspace} (hwf : w.tree.WellFormed) (hlies : d.LiesAt w.tree home) :
    Kept home w.tree (w.lock d).1.tree := by
  have hlocked := Workspace.edits_lock hlies
  refine ⟨(hlocked.wellFormed hwf hlies).1, fun d hd => (hlocked.wellFormed hwf hd).2, ?_⟩
  exact hlocked.sameHoldings hwf hlies fun name hname hmay => absurd hmay.1 hname.1

theorem Undone.kept (h : Undone home t t' id) (hwf : t.WellFormed) (hlies : d.LiesAt t home) :
    Kept home t t' := by
  refine ⟨(h.edits.wellFormed hwf hlies).1, fun d hd => (h.edits.wellFormed hwf hd).2, ?_⟩
  refine h.edits.sameHoldings hwf hlies fun name hname hmay => ?_
  rcases hmay with rfl | rfl | rfl
  · exact h.file
  · exact absurd rfl (hname.2.2 id)
  · exact absurd rfl hname.2.1

theorem Undone.item?_lock (h : Undone home t t' id) (hwf : t.WellFormed)
    (hlies : d.LiesAt t home) : t'.item? (home ++ [lockName]) = t.item? (home ++ [lockName]) := by
  rcases h.edits.item? hwf hlies lockName with hsame | hname | hname | hname
  · exact hsame
  · exact absurd rfl (hname ▸ (isHolding_nameOf id).1)
  · exact absurd hname (lockName_ne_journal id)
  · exact absurd hname (by decide)

/-- Of a pointer that could not be replaced, no draft is left. -/
theorem LiesAt.edits_writeCurrent_error (h : d.LiesAt t home) (hwf : t.WellFormed)
    {obstacle : Obstacle} (ht : d.writeCurrent t id = (t', .error obstacle)) :
    Edits home (fun name _ => name = draftName) t t' ∧
      (t.item? (home ++ [draftName]) = none → t' = t) := by
  rw [h.writeCurrent_eq hwf id] at ht
  split at ht
  · obtain rfl := (Prod.mk.inj ht).1
    exact ⟨.refl, fun _ => rfl⟩
  · rename_i hdraft
    dsimp only at ht
    split at ht
    · obtain rfl := (Prod.mk.inj ht).1
      have hput : Edits home (fun name _ => name = draftName) t
          (t.set (home ++ [draftName]) (pointerTo id)) :=
        .write .refl isName_draftName (by simpa using hdraft) rfl rfl
      refine ⟨.remove hput ?_ rfl, fun hnone => ?_⟩
      · rw [FileTree.hasDirectory, FileTree.item?_set_self _ (by simp)]
        rfl
      · rw [FileTree.remove_set, hwf.remove_eq_self hnone]
    · cases (Prod.mk.inj ht).2

/-- A store that was put into its file and removed again leaves nothing. -/
theorem LiesAt.removeStore_stored (h : d.LiesAt t home) (hwf : t.WellFormed)
    (hfree : t.item? (home ++ [nameOf id]) = none)
    (hjournal : t.item? (home ++ [journalName id]) = none) (store : Store) :
    removeStore (stored home t id store) (d.fileFor id) = t := by
  have hdir : t.hasDirectory (home ++ [journalName id]) = false := by
    rw [FileTree.hasDirectory, hjournal]
  have hedits := edits_stored hfree hdir store
  obtain ⟨hwf', h'⟩ := hedits.wellFormed hwf h
  have hnone : (stored home t id store).item? (home ++ [journalName id]) = none := by
    rcases hedits.item? hwf h (journalName id) with hsame | hname | ⟨-, hgone⟩
    · exact hsame.trans hjournal
    · exact absurd hname.symm (nameOf_ne_journal id id)
    · exact hgone
  have hdelete : (stored home t id store).delete (d.entry (journalName id)) =
      stored home t id store := by
    rw [h'.delete_entry (isName_journal id), FileTree.hasDirectory, hnone]
    exact hwf'.remove_eq_self hnone
  rw [removeStore, LiesAt.journalOf_fileFor, hdelete, fileFor, h'.delete_entry (isName_nameOf id),
    FileTree.hasDirectory, item?_stored]
  simp only [Bool.false_eq_true, if_false]
  rw [stored, FileTree.remove_set, hwf.remove_eq_self hjournal, hwf.remove_eq_self hfree]

end IndexDirectory

attribute [local irreducible] nameOf journalName removeStore Project.buildLocked

namespace Project

variable {home : List String} {w w' : Workspace} {p p' q : Project} {parse : Chunk.Parse}
  {mode : BuildMode} {o : BuildOptions} {id : Nat} {store : Store} {built : Built}

/-! ## Under the lock -/

/-- A build that has put nothing into its file has undone what it did, if a store could have been
created. -/
theorem Leaves.undoes {d : IndexDirectory} {t t' : FileTree} (h : Leaves home d t id t')
    (hwf : t.WellFormed) (hlies : d.LiesAt t home)
    (hjournal : t.hasDirectory (home ++ [journalName id]) = false) : Undone home t t' id := by
  cases h with
  | same => exact ⟨.refl, rfl, fun _ _ => rfl⟩
  | empty _ hblocked =>
      rw [hjournal] at hblocked
      cases hblocked
  | undone hfree _ =>
      have hstored := IndexDirectory.edits_stored hfree hjournal .empty
      obtain ⟨hwf', hlies'⟩ := hstored.wellFormed hwf hlies
      refine ⟨?_, ?_, fun hnone _ => hlies.removeStore_stored hwf hfree hnone .empty⟩
      · exact (hstored.mono fun _ _ => mayTouch_of_mayStore).trans
          ((hlies'.edits_removeStore hwf' id).mono fun _ _ => mayTouch_of_mayRemove)
      · rw [hfree]
        refine hlies'.item?_removeStore_none hwf' ?_
        rw [FileTree.hasDirectory, item?_stored]

/-- A build that could not set the pointer has undone what it did. -/
theorem Makes.undoes (h : Makes home w p parse mode o id store built) (hwf : w.tree.WellFormed)
    (hlies : p.directory.LiesAt w.tree home) {t : FileTree} {obstacle : Obstacle}
    (ht : p.directory.writeCurrent (stored home w.tree id store) id = (t, .error obstacle)) :
    Undone home w.tree (removeStore t (p.directory.fileFor id)) id := by
  have hstored := h.edits_stored
  obtain ⟨hwf', hlies'⟩ := hstored.wellFormed hwf hlies
  obtain ⟨hpointed, hsame⟩ := hlies'.edits_writeCurrent_error hwf' ht
  obtain ⟨hwf'', hlies''⟩ := hpointed.wellFormed hwf' hlies'
  refine ⟨?_, ?_, fun hjournal hdraft => ?_⟩
  · refine ((hstored.mono fun _ _ => mayTouch_of_mayStore).trans
      (hpointed.mono fun _ _ hname => Or.inr (Or.inr hname))).trans ?_
    exact (hlies''.edits_removeStore hwf'' id).mono fun _ _ => mayTouch_of_mayRemove
  · rw [h.free]
    refine hlies''.item?_removeStore_none hwf'' ?_
    rw [FileTree.hasDirectory]
    rcases hpointed.item? hwf' hlies' (nameOf id) with hitem | hname
    · rw [hitem, item?_stored]
    · exact absurd hname (nameOf_ne_pointer id).2
  · have hnone : (stored home w.tree id store).item? (home ++ [draftName]) = none := by
      rcases hstored.item? hwf hlies draftName with hitem | hname | ⟨hname, -⟩
      · exact hitem.trans hdraft
      · exact absurd hname.symm (nameOf_ne_pointer id).2
      · exact absurd hname.symm (journalName_ne_pointer id).2
    rw [hsame hnone]
    exact hlies.removeStore_stored hwf h.free hjournal store

/-- No directory has the name of the journal of the next generation. -/
def JournalFree (home : List String) (d : IndexDirectory) (t : FileTree) : Prop :=
  ∀ id, d.nextId t = .ok id → t.hasDirectory (home ++ [journalName id]) = false

/-- A build under the lock that fails has undone what it did. -/
theorem Ends.undone {step : Step Built} (h : Ends home w p parse mode o step)
    (hwf : w.tree.WellFormed) (hlies : p.directory.LiesAt w.tree home)
    (hjournal : JournalFree home p.directory w.tree) {f : Fault} (herror : step.answer = .error f) :
    step.project = p ∧
      (∃ tree nextToken, step.workspace = { w with tree, nextToken }) ∧
      (step.workspace.tree = w.tree ∨ ∃ id, p.directory.nextId w.tree = .ok id ∧
        Undone home w.tree step.workspace.tree id) := by
  cases h with
  | @unwritten t f' hmade =>
      refine ⟨rfl, ⟨t, w.nextToken, rfl⟩, ?_⟩
      refine (makeNext_error hwf hlies hmade).imp_right ?_
      rintro ⟨id, hid, hleaves⟩
      exact ⟨id, hid, hleaves.undoes hwf hlies (hjournal id hid)⟩
  | @removed id store built t obstacle hmakes hpointer =>
      refine ⟨rfl, ⟨removeStore t (p.directory.fileFor id), w.nextToken + 1, rfl⟩, ?_⟩
      exact Or.inr ⟨id, hmakes.next, hmakes.undoes hwf hlies hpointer⟩
  | done _ _ _ => cases herror

/-! ## Requests that come to nothing -/

/-- A request has come to nothing: what the index holds is the same, the lock is free unless another
holder had it, and the handle that made the request differs from what it was by having looked for a
newer generation at most. -/
structure CameToNothing (home : List String) (w : Workspace) (p : Project) (step : Step Built) :
    Prop where
  kept : Kept home w.tree step.workspace.tree
  lock : home ++ [lockName] ∈ step.workspace.locked → home ++ [lockName] ∈ w.locked
  locks : ∀ names, names ≠ home ++ [lockName] →
    (names ∈ step.workspace.locked ↔ names ∈ w.locked)
  readers : step.workspace.readers = w.readers
  retired : step.workspace.retired = w.retired
  agree : Agree home w step.workspace p step.project

/-- What a handle sees of an index that holds the same is the same. -/
theorem alike_of_kept (h : Kept home w.tree w'.tree) (hlies : q.directory.LiesAt w.tree home)
    (hpath : ∀ g, q.current = some g → g.path = q.directory.fileFor g.id) :
    Alike home w w' q q :=
  ⟨hlies, h.lies _ hlies, h.holdings.item? isHolding_currentName,
    fun id => h.holdings.item? (isHolding_nameOf id), hpath, q.current, rfl, rfl⟩

/-- A handle that has looked for a newer generation under the lock agrees with itself before. -/
theorem agree_started (hwf : w.tree.WellFormed) (hlies : p.directory.LiesAt w.tree home)
    (hpath : ∀ g, p.current = some g → g.path = p.directory.fileFor g.id)
    (hkept : Kept home (seen w p) w'.tree) : Agree home w w' p (started w p).2 := by
  have hlocking := kept_lock hwf hlies
  have hlies₁ := hlocking.lies _ hlies
  have hpath' := ((alike_refl hlies₁ hpath).refresh).path
  refine ⟨hpath, hpath', ?_⟩
  -- what it finds before, under the lock, when it looks once more, and afterwards
  have hbefore := (alike_of_kept hlocking hlies hpath).refresh
  have hunder := alike_refresh hlies₁ hpath
  have hafter : Alike home (started w p).1 w' (started w p).2 (started w p).2 := by
    refine alike_of_kept (by rwa [started_tree]) ?_ hpath'
    rw [started_tree, started_directory]
    exact hlies₁
  exact (hbefore.trans hunder).trans hafter.refresh

/-- What is left when a build under the lock has undone what it did, and the lock is free again. -/
theorem cameToNothing_of_undone (hwf : w.tree.WellFormed) (hlies : p.directory.LiesAt w.tree home)
    (hpath : ∀ g, p.current = some g → g.path = p.directory.fileFor g.id)
    (hfree : (w.lock p.directory).2 = .ok true) {step : Step Built}
    (hproject : step.project = (started w p).2)
    (hworkspace : ∃ tree nextToken, step.workspace = { (started w p).1 with tree, nextToken })
    (htree : step.workspace.tree = seen w p ∨ ∃ id, Undone home (seen w p) step.workspace.tree id) :
    CameToNothing home w p { step with workspace := step.workspace.unlock p.directory } := by
  have hlocking := kept_lock hwf hlies
  have hlies₁ := hlocking.lies _ hlies
  obtain ⟨hlock, hlocked, -⟩ := Workspace.lock_of_ok hlies hwf hfree
  -- what the build undid is not the file of the lock
  have hkept : Kept home (seen w p) step.workspace.tree ∧
      (step.workspace.tree.item? (home ++ [lockName])).isSome = true := by
    rcases htree with hsame | ⟨id, hundone⟩
    · rw [hsame]
      exact ⟨.refl hlocking.wellFormed, hlocked⟩
    · refine ⟨hundone.kept hlocking.wellFormed hlies₁, ?_⟩
      rw [hundone.item?_lock hlocking.wellFormed hlies₁]
      exact hlocked
  obtain ⟨hkept, hlockfile⟩ := hkept
  have hfields : step.workspace.locked = (home ++ [lockName]) :: w.locked.filter
        (· ≠ home ++ [lockName]) ∧
      step.workspace.readers = w.readers ∧ step.workspace.retired = w.retired := by
    obtain ⟨_, _, hworkspace⟩ := hworkspace
    obtain ⟨_, hstarted⟩ := refresh_workspace (w.lock p.directory).1 p
    rw [hworkspace, started, hstarted, hlock]
    exact ⟨rfl, rfl, rfl⟩
  obtain ⟨hlocks, hreaders, hretired⟩ := hfields
  have hunlock := Workspace.unlock_eq ((hlocking.trans hkept).lies _ hlies) hlockfile
  refine ⟨?_, ?_, ?_, ?_, ?_, ?_⟩
  all_goals dsimp only
  · rw [Workspace.unlock_tree]
    exact hlocking.trans hkept
  · rw [hunlock]
    simp
  · intro names hnames
    rw [hunlock]
    simp [hlocks, hnames]
  · rw [hunlock]
    exact hreaders
  · rw [hunlock]
    exact hretired
  · rw [hproject]
    refine agree_started hwf hlies hpath ?_
    rw [Workspace.unlock_tree]
    exact hkept

/-- A build that fails has come to nothing. If the lock file was there, and neither a stale journal
nor a draft, then the tree is what it was. -/
theorem cameToNothing_of_error (hwf : w.tree.WellFormed) (hlies : p.directory.LiesAt w.tree home)
    (hpath : ∀ g, p.current = some g → g.path = p.directory.fileFor g.id)
    (hjournal : JournalFree home p.directory (seen w p)) {f : Fault}
    (herror : (build w p parse mode o).answer = .error f) :
    CameToNothing home w p (build w p parse mode o) ∧
      ((w.tree.item? (home ++ [lockName])).isSome = true →
        (∀ id, w.tree.item? (home ++ [journalName id]) = none) →
        w.tree.item? (home ++ [draftName]) = none →
        (build w p parse mode o).workspace.tree = w.tree) := by
  by_cases hfree : (w.lock p.directory).2 = .ok true
  · have hlocking := kept_lock hwf hlies
    have hends : Ends home (started w p).1 (started w p).2 parse mode o
        (buildLocked (w.lock p.directory).1 p parse mode o) :=
      buildLocked_ends hlocking.wellFormed (hlocking.lies _ hlies)
    rw [build_of_locked hfree] at herror ⊢
    generalize buildLocked (w.lock p.directory).1 p parse mode o = step at hends herror ⊢
    obtain ⟨hproject, hworkspace, htree⟩ := hends.undone (by
        rw [started_tree]
        exact hlocking.wellFormed) (by
        rw [started_tree, started_directory]
        exact hlocking.lies _ hlies) (by rwa [started_tree, started_directory]) herror
    rw [started_tree] at htree
    refine ⟨cameToNothing_of_undone hwf hlies hpath hfree hproject hworkspace
      (htree.imp_right fun ⟨id, _, hundone⟩ => ⟨id, hundone⟩), fun hlockfile hnone hdraft => ?_⟩
    have hseen : seen w p = w.tree := (Workspace.lock_of_ok hlies hwf hfree).2.2 hlockfile
    rw [hseen] at htree
    dsimp only
    rw [Workspace.unlock_tree]
    rcases htree with hsame | ⟨id, -, hundone⟩
    · exact hsame
    · exact hundone.eq (hnone id) hdraft
  · obtain ⟨f', hbuild⟩ := build_of_not_locked hfree parse mode o
    rw [hbuild, Workspace.lock_of_not_ok hlies hwf hfree]
    exact ⟨⟨.refl hwf, id, fun _ _ => Iff.rfl, rfl, rfl, (alike_refl hlies hpath).agree⟩,
      fun _ _ _ => rfl⟩

/-- A build that fails is undone: the pointer and the files of the generations are the same, the lock
is free unless another holder had it, and whatever is asked afterwards, through any handles on the
index, is answered as if the build had not been requested. -/
theorem build_error_undone (hwf : w.tree.WellFormed) (hlies : p.directory.LiesAt w.tree home)
    (hpath : ∀ g, p.current = some g → g.path = p.directory.fileFor g.id)
    (hjournal : JournalFree home p.directory (seen w p)) {f : Fault}
    (herror : (build w p parse mode o).answer = .error f) :
    CameToNothing home w p (build w p parse mode o) ∧
      ((w.tree.item? (home ++ [lockName])).isSome = true →
        (∀ id, w.tree.item? (home ++ [journalName id]) = none) →
        w.tree.item? (home ++ [draftName]) = none →
        (build w p parse mode o).workspace.tree = w.tree) ∧
      ∀ (handles : Nat → Project) (k : Nat), handles k = p →
        (∀ j, (handles j).directory.LiesAt w.tree home ∧ ∀ g, (handles j).current = some g →
          g.path = (handles j).directory.fileFor g.id) →
        (∀ j path, (build w p parse mode o).workspace.tree.readText ((handles j).root.join path) =
          w.tree.readText ((handles j).root.join path)) →
        ∀ questions, replies (build w p parse mode o).workspace
            (Function.update handles k (build w p parse mode o).project) questions =
          replies w handles questions := by
  obtain ⟨hnothing, heq⟩ := cameToNothing_of_error hwf hlies hpath hjournal herror
  refine ⟨hnothing, heq, fun handles k hk hhandles hsource => ?_⟩
  have hagree : ∀ j, Agree home w (build w p parse mode o).workspace (handles j)
      (Function.update handles k (build w p parse mode o).project j) := by
    intro j
    by_cases hj : j = k
    · subst hj
      rw [Function.update_self, hk]
      exact hnothing.agree
    · rw [Function.update_of_ne hj]
      exact (alike_of_kept hnothing.kept (hhandles j).1 (hhandles j).2).agree
  exact replies_eq hagree hsource

/-- The first build of the small project, stopped once it has written its generation. -/
def smallStopped : Step Built :=
  build smallOpened.1 small Scope.small.parse .full { stop := some (.written, .cancelled) }

/-- Nothing of it is left. -/
theorem undone_smallStopped : smallStopped.answer.isOk = false ∧
    CameToNothing Scope.small.home smallOpened.1 small smallStopped ∧
    smallStopped.workspace.tree = smallOpened.1.tree := by
  have horder := (Run.small (S := .small) rfl rfl).inOrder
  have hnames : ∀ e ∈ smallOpened.1.tree.entries,
      e.1 = Scope.small.home ++ [lockName] ∨ e.1.length ≠ 3 := by decide +kernel
  have hlockfile : (smallOpened.1.tree.item? (Scope.small.home ++ [lockName])).isSome = true := by
    decide +kernel
  have hseen : seen smallOpened.1 small = smallOpened.1.tree :=
    (Workspace.lock_of_ok horder.lies horder.wellFormed (by decide +kernel)).2.2 hlockfile
  have hjournal : ∀ id, smallOpened.1.tree.item? (Scope.small.home ++ [journalName id]) = none := by
    intro id
    by_contra hitem
    obtain ⟨item, hitem⟩ := Option.ne_none_iff_exists'.mp hitem
    rcases hnames _ (FileTree.mem_of_item? (by simp) hitem) with hname | hlength
    · have hlast := (List.cons.inj (List.append_cancel_left hname)).1
      exact lockName_ne_journal id hlast.symm
    · exact hlength rfl
  have herror : smallStopped.answer.isOk = false := by decide +kernel
  obtain ⟨f, hf⟩ : ∃ f, smallStopped.answer = .error f := by
    cases hanswer : smallStopped.answer with
    | error f => exact ⟨f, rfl⟩
    | ok built =>
        rw [hanswer] at herror
        cases herror
  unfold smallStopped at hf herror ⊢
  obtain ⟨hnothing, heq, -⟩ := build_error_undone horder.wellFormed horder.lies horder.path
    (fun id _ => by rw [hseen, FileTree.hasDirectory, hjournal id]) hf
  exact ⟨herror, hnothing, heq hlockfile hjournal (by decide +kernel)⟩

/-! ## A file that stays -/

/-- If no store can be created since a directory has the name of its journal, then the empty file that
was made for it stays. -/
theorem build_blocked (hfree : (w.lock p.directory).2 = .ok true) (hwf : (seen w p).WellFormed)
    (hlies : p.directory.LiesAt (seen w p) home) (hid : p.directory.nextId (seen w p) = .ok id)
    {base : Option BuildBase} (hbase : baseOf (started w p).1 mode (started w p).2.current = .ok base)
    {prepared : Prepared × List String}
    (hprepared : prepare (seen w p) (p.context parse) o mode base = .ok prepared)
    (hitem : (seen w p).item? (home ++ [nameOf id]) = none)
    (hblocked : (seen w p).hasDirectory (home ++ [journalName id]) = true) :
    (build w p parse mode o).answer =
        .error (.store "failed to create schema: unable to open database file") ∧
      (build w p parse mode o).workspace.tree =
        (seen w p).set (home ++ [nameOf id]) (.file .empty) := by
  have hmade : makeNext (started w p).1 (started w p).2 parse mode o =
      ((seen w p).set (home ++ [nameOf id]) (.file .empty),
        .error (.store "failed to create schema: unable to open database file")) := by
    rw [makeNext, started_directory, started_tree, started_context]
    simp only [hid, hbase, write, hprepared, hlies.create_eq hwf, hlies.leftover_eq, hitem,
      hblocked, Option.isSome_none, Bool.false_eq_true, if_false, if_true]
    rfl
  rw [build_of_locked hfree, buildLocked_of_error hmade]
  exact ⟨rfl, Workspace.unlock_tree _ _⟩

/-- The small project before its first build, with a directory where the journal of the first
generation belongs. -/
def smallBlocked : Workspace :=
  { smallOpened.1 with
    tree := smallOpened.1.tree.set (Scope.small.home ++ [journalName 1]) .directory }

/-- Its build fails, and the file of the first generation, which was not there, stays. -/
theorem leftover_smallBlocked : smallBlocked.tree.WellFormed ∧
    small.directory.LiesAt smallBlocked.tree Scope.small.home ∧
    (build smallBlocked small Scope.small.parse .full {}).answer =
      .error (.store "failed to create schema: unable to open database file") ∧
    smallBlocked.tree.item? (Scope.small.home ++ [nameOf 1]) = none ∧
    (build smallBlocked small Scope.small.parse .full {}).workspace.tree.item?
      (Scope.small.home ++ [nameOf 1]) = some (.file .empty) := by
  have hwf : smallBlocked.tree.WellFormed := by
    constructor
    all_goals decide +kernel
  have hplain : ∀ e ∈ smallBlocked.tree.entries, e.2.isPlain = true := by decide +kernel
  have hlies : small.directory.LiesAt smallBlocked.tree Scope.small.home := by
    refine ⟨by decide +kernel, by decide +kernel, fun name target hlink => ?_⟩
    exact nomatch hplain _ (FileTree.mem_of_item? (by simp) hlink)
  have hseen : seen smallBlocked small = smallBlocked.tree :=
    (Workspace.lock_of_ok hlies hwf (by decide +kernel)).2.2 (by decide +kernel)
  have hnone : smallBlocked.tree.item? (Scope.small.home ++ [nameOf 1]) = none := by
    decide +kernel
  have hid : small.directory.nextId smallBlocked.tree = .ok 1 := by
    have hids : (smallBlocked.tree.namesIn Scope.small.home).filterMap idOfName? = [] := by
      decide +kernel
    have hcurrent : small.directory.readCurrent smallBlocked.tree = .ok none := by decide +kernel
    rw [hlies.nextId_eq hcurrent, hids]
    rfl
  have hprepared : (prepare smallBlocked.tree (small.context Scope.small.parse) {} .full
      none).isOk = true := by decide +kernel
  obtain ⟨prepared, hprepared⟩ := Except.exists_of_isOk hprepared
  obtain ⟨hanswer, htree⟩ := build_blocked (w := smallBlocked) (p := small) (o := {})
    (by decide +kernel) (hseen ▸ hwf) (hseen ▸ hlies) (hseen ▸ hid) (baseOf_full _ _)
    (hseen ▸ hprepared) (hseen ▸ hnone) (by rw [hseen]; decide +kernel)
  refine ⟨hwf, hlies, hanswer, hnone, ?_⟩
  rw [htree]
  exact FileTree.item?_set_self _ (by simp) _

end Project

end SourceIndex
