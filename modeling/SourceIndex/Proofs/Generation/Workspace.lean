import Mathlib
import SourceIndex.Generation.Workspace
import SourceIndex.Proofs.Generation.Directory

/-! # Generations of a workspace

What taking a lock, opening a generation and retiring one do to the tree, for an index directory
that lies at a known place.
-/

set_option autoImplicit false

namespace SourceIndex

open IndexDirectory

theorem Store.readFacts_ok_iff (s : Store) (facts : BuildFacts) :
    s.readFacts = .ok facts ↔ s.facts = some facts ∧ facts.schema = Store.schemaVersion := by
  rw [readFacts]
  cases s.facts with
  | none => simp
  | some f =>
      by_cases hschema : f.schema = schemaVersion
      · simp only [hschema, if_true, Except.ok.injEq, Option.some.injEq]
        constructor
        · rintro rfl
          exact ⟨rfl, hschema⟩
        · rintro ⟨rfl, -⟩
          rfl
      · simp only [hschema, if_false, reduceCtorEq, Option.some.injEq, false_iff, not_and]
        rintro rfl
        exact hschema

/-- A generation is opened exactly if its file holds a store with facts that can be used. -/
theorem Generation.openAt_ok_iff {d : IndexDirectory} {t : FileTree} {home : List String}
    (h : d.LiesAt t home) (token id : Nat) {g : Generation} :
    Generation.openAt t token id (d.fileFor id) = .ok g ↔
      ∃ store, t.item? (home ++ [nameOf id]) = some (.index store) ∧
        store.facts = some g.facts ∧ g.facts.schema = Store.schemaVersion ∧
        g = { token, id, path := d.fileFor id, facts := g.facts } := by
  rw [Generation.openAt]
  constructor
  · intro hg
    split at hg
    · cases hg
    · rename_i store hstore
      split at hg
      · cases hg
      · rename_i facts hfacts
        cases hg
        obtain ⟨hfacts, hschema⟩ := (store.readFacts_ok_iff facts).mp hfacts
        exact ⟨store, (h.openStore_entry (isName_nameOf id)).mp hstore, hfacts, hschema, rfl⟩
  · rintro ⟨store, hstore, hfacts, hschema, hg⟩
    have hopen : openStore t (d.fileFor id) "failed to read index metadata" "metadata" = .ok store :=
      (h.openStore_entry (isName_nameOf id)).mpr hstore
    rw [hopen]
    simp only [(store.readFacts_ok_iff g.facts).mpr ⟨hfacts, hschema⟩]
    rw [← hg]

namespace Workspace

variable {w : Workspace} {d : IndexDirectory} {home : List String}

@[simp] theorem unlock_tree (w : Workspace) (d : IndexDirectory) :
    (w.unlock d).tree = w.tree := by
  rw [unlock]
  split <;> rfl

/-- The build lock is free unless its file is there and held. The file is made if it is missing. -/
theorem lock_eq (h : d.LiesAt w.tree home) (hwf : w.tree.WellFormed) :
    w.lock d =
      if w.tree.hasDirectory (home ++ [lockName]) then (w, .error .isDirectory)
      else if (w.tree.item? (home ++ [lockName])).isSome then
        if w.locked.contains (home ++ [lockName]) then (w, .ok false)
        else ({ w with locked := (home ++ [lockName]) :: w.locked }, .ok true)
      else
        ({ w with
            tree := w.tree.set (home ++ [lockName]) (.file .empty)
            locked := (home ++ [lockName]) :: w.locked.filter (· ≠ home ++ [lockName]) },
          .ok true) := by
  have hlocate := h.locate_entry isName_lockName
  rw [lock, h.makeDirectory_eq]
  cases hitem : w.tree.item? (home ++ [lockName]) with
  | some item =>
      rw [hitem] at hlocate
      simp only [hlocate, Option.isSome_some, if_true]
  | none =>
      rw [hitem] at hlocate
      have hdir : w.tree.hasDirectory (home ++ [lockName]) = false := by
        rw [FileTree.hasDirectory, hitem]
      have hput : FileTree.Edit (home ++ [lockName]) w.tree
          (w.tree.set (home ++ [lockName]) (.file .empty)) :=
        hwf.edit_set (by simp) (by simp [hitem]) rfl
      have hlocate' := (h.edit hput).locate_entry isName_lockName
      rw [FileTree.item?_set_self _ (by simp)] at hlocate'
      simp only [Option.isSome_some, if_true] at hlocate'
      simp only [hlocate, Option.isSome_none, Bool.false_eq_true, if_false, hdir,
        h.write_entry isName_lockName, hlocate']

/-- Who takes the build lock finds no directory in its place. -/
theorem not_directory_of_lock (h : d.LiesAt w.tree home) (hwf : w.tree.WellFormed)
    (hok : (w.lock d).2 = .ok true) : w.tree.hasDirectory (home ++ [lockName]) = false := by
  by_contra hdir
  rw [lock_eq h hwf, if_pos (by simpa using hdir)] at hok
  cases hok

/-- The build lock is free if its file is there and nobody holds it. -/
theorem lock_of_idle (h : d.LiesAt w.tree home) (hwf : w.tree.WellFormed)
    (hfile : (w.tree.item? (home ++ [lockName])).isSome = true)
    (hdir : w.tree.hasDirectory (home ++ [lockName]) = false)
    (hidle : home ++ [lockName] ∉ w.locked) : (w.lock d).2 = .ok true := by
  rw [lock_eq h hwf, if_neg (by simp [hdir]), if_pos hfile, if_neg (by simpa using hidle)]

/-- Who takes the build lock has it alone, and its file is there. -/
theorem lock_of_ok (h : d.LiesAt w.tree home) (hwf : w.tree.WellFormed)
    (hok : (w.lock d).2 = .ok true) :
    (w.lock d).1 = { w with
      tree := (w.lock d).1.tree
      locked := (home ++ [lockName]) :: w.locked.filter (· ≠ home ++ [lockName]) } ∧
    ((w.lock d).1.tree.item? (home ++ [lockName])).isSome = true ∧
    ((w.tree.item? (home ++ [lockName])).isSome = true → (w.lock d).1.tree = w.tree) := by
  rw [lock_eq h hwf] at hok ⊢
  split at hok
  · cases hok
  · rename_i hdir
    rw [if_neg hdir]
    split at hok
    · rename_i hitem
      rw [if_pos hitem]
      split at hok
      · cases hok
      · rename_i hheld
        rw [if_neg hheld]
        have hfilter : w.locked.filter (· ≠ home ++ [lockName]) = w.locked := by
          refine List.filter_eq_self.mpr fun names hnames => ?_
          refine decide_eq_true fun hsame => hheld ?_
          rw [List.contains_iff_mem, ← hsame]
          exact hnames
        exact ⟨by rw [hfilter], hitem, fun _ => rfl⟩
    · rename_i hitem
      rw [if_neg hitem]
      refine ⟨rfl, ?_, fun hsome => absurd hsome hitem⟩
      dsimp only
      rw [FileTree.item?_set_self _ (by simp)]
      rfl

/-- Who does not get the build lock changes nothing. -/
theorem lock_of_not_ok (h : d.LiesAt w.tree home) (hwf : w.tree.WellFormed)
    (hok : (w.lock d).2 ≠ .ok true) : (w.lock d).1 = w := by
  rw [lock_eq h hwf] at hok ⊢
  split
  · rfl
  · rename_i hdir
    rw [if_neg hdir] at hok
    split
    · rename_i hitem
      rw [if_pos hitem] at hok
      split
      · rfl
      · rename_i hheld
        rw [if_neg hheld] at hok
        exact absurd rfl hok
    · rename_i hitem
      rw [if_neg hitem] at hok
      exact absurd rfl hok

/-- The build lock is free again. -/
theorem unlock_eq (h : d.LiesAt w.tree home)
    (hlock : (w.tree.item? (home ++ [lockName])).isSome = true) :
    w.unlock d = { w with locked := w.locked.filter (· ≠ home ++ [lockName]) } := by
  rw [unlock, h.locate_entry isName_lockName, if_pos hlock]

/-- Taking the build lock makes the lock file at most. -/
theorem edits_lock (h : d.LiesAt w.tree home) :
    Edits home mayLock w.tree (w.lock d).1.tree := by
  rw [lock, h.makeDirectory_eq]
  simp only [h.locate_entry isName_lockName, h.write_entry isName_lockName]
  cases hitem : w.tree.item? (home ++ [lockName]) with
  | some item =>
      simp only [Option.isSome_some, if_true]
      split
      · exact .refl
      · split
        · exact .refl
        · exact .refl
  | none =>
      have hdir : w.tree.hasDirectory (home ++ [lockName]) = false := by
        rw [FileTree.hasDirectory, hitem]
      have hput : Edits home mayLock w.tree (w.tree.set (home ++ [lockName]) (.file .empty)) :=
        .write .refl isName_lockName hdir rfl ⟨rfl, rfl⟩
      simp only [Option.isSome_none, Bool.false_eq_true, if_false, hdir]
      split
      · exact .refl
      · exact hput

theorem openGeneration_ok_iff (w w' : Workspace) (id : Nat) (path : Path) (g : Generation) :
    w.openGeneration id path = .ok (w', g) ↔
      Generation.openAt w.tree w.nextToken id path = .ok g ∧
        w' = { w with nextToken := w.nextToken + 1 } := by
  rw [openGeneration]
  split
  · rename_i g' hg'
    rw [hg']
    simp [and_comm, eq_comm]
  · rename_i f hf
    simp [hf]

/-- Retiring a generation removes its file and the journal beside it at most. -/
theorem edits_retire (h : d.LiesAt w.tree home) (hwf : w.tree.WellFormed) {g : Generation}
    (hg : g.path = d.fileFor g.id) : Edits home (mayRemove g.id) w.tree (w.retire g).tree := by
  rw [retire]
  split
  · exact .refl
  · have hremoved := h.edits_removeStore hwf g.id
    rw [← hg] at hremoved
    exact hremoved

/-! ## Readers -/

theorem mem_of_mem_eraseReader {g r : Generation} {readers : List Generation}
    (h : r ∈ eraseReader g readers) : r ∈ readers := by
  induction readers with
  | nil => exact h
  | cons first rest ih =>
      rw [eraseReader] at h
      split at h
      · exact List.mem_cons_of_mem _ h
      · exact (List.mem_cons.mp h).elim (fun hr => hr ▸ List.mem_cons_self)
          fun hr => List.mem_cons_of_mem _ (ih hr)

/-- Other generations are held as before. -/
theorem isHeld_eraseReader (w : Workspace) {g r : Generation} (hr : r.token ≠ g.token) :
    { w with readers := eraseReader g w.readers }.isHeld r = w.isHeld r := by
  rw [isHeld, isHeld]
  dsimp only
  induction w.readers with
  | nil => rfl
  | cons first rest ih =>
      rw [eraseReader]
      split
      · rename_i hfirst
        have hother : first.token ≠ r.token := fun hsame => hr (hsame.symm.trans hfirst)
        simp [hother]
      · rw [List.any_cons, List.any_cons, ih]

/-- When a reader lets go of a generation, the generation is still held or was not retired, or else
its file is removed. -/
theorem release_cases (w : Workspace) (g : Generation) :
    (w.release g = { w with readers := eraseReader g w.readers } ∧
      ∀ r ∈ w.retired, r.token = g.token →
        { w with readers := eraseReader g w.readers }.isHeld g = true) ∨
    (w.release g = { w with
        readers := eraseReader g w.readers
        retired := w.retired.filter fun r => r.token ≠ g.token
        tree := removeStore w.tree g.path } ∧
      { w with readers := eraseReader g w.readers }.isHeld g = false ∧
      ∃ r ∈ w.retired, r.token = g.token) := by
  rw [release]
  dsimp only
  split
  · rename_i hgone
    rw [Bool.and_eq_true, Bool.not_eq_true', List.any_eq_true] at hgone
    obtain ⟨hheld, r, hr, htoken⟩ := hgone
    exact Or.inr ⟨rfl, hheld, r, hr, of_decide_eq_true htoken⟩
  · rename_i hkept
    refine Or.inl ⟨rfl, fun r hr htoken => ?_⟩
    by_contra hheld
    refine hkept ?_
    rw [Bool.and_eq_true, Bool.not_eq_true', List.any_eq_true]
    exact ⟨by simpa using hheld, r, hr, decide_eq_true htoken⟩

end Workspace

end SourceIndex
