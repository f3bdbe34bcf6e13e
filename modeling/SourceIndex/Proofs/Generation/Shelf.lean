import Mathlib
import SourceIndex.Proofs.Generation.Number
import SourceIndex.Proofs.Generation.Workspace

/-! # Shelves

While only handles work in an index directory, it holds the pointer to the generation in use and
the stores of generations, each in the file of its number: it is a *shelf* (`Shelf.IsAt`). Then
every operation of the library changes the shelf in one place: it puts a store there or takes one
away, it sets the pointer, or it clears away all stores but one. Numbers of new generations are new
(`Shelf.IsAt.nextId_spec`), and what has a store can be opened (`Shelf.IsAt.openGeneration_iff`).
-/

set_option autoImplicit false

namespace SourceIndex

open IndexDirectory

-- names of files are not to be computed
attribute [local irreducible] nameOf journalName

/-- What an index directory holds: the generation in use, and the stores of generations. -/
structure Shelf where
  current : Option Nat
  store : Nat → Option Store

namespace Shelf

/-- A store is put on the shelf. -/
def put (s : Shelf) (id : Nat) (store : Store) : Shelf :=
  { s with store := Function.update s.store id (some store) }

/-- A store is taken away. -/
def drop (s : Shelf) (id : Nat) : Shelf := { s with store := Function.update s.store id none }

/-- All stores but one are taken away. -/
def keep (s : Shelf) (kept : Option Nat) : Shelf :=
  { s with store := fun id => if kept = some id then s.store id else none }

/-- The pointer is set. -/
def point (s : Shelf) (id : Nat) : Shelf := { s with current := some id }

section

variable (s : Shelf) (id k : Nat) (store : Store) (kept : Option Nat)

@[simp] theorem current_put : (s.put id store).current = s.current := rfl

@[simp] theorem current_drop : (s.drop id).current = s.current := rfl

@[simp] theorem current_keep : (s.keep kept).current = s.current := rfl

@[simp] theorem current_point : (s.point id).current = some id := rfl

@[simp] theorem store_point : (s.point id).store = s.store := rfl

@[simp] theorem store_put_self : (s.put id store).store id = some store := Function.update_self ..

@[simp] theorem store_drop_self : (s.drop id).store id = none := Function.update_self ..

variable {id k}

theorem store_put_of_ne (h : k ≠ id) : (s.put id store).store k = s.store k :=
  Function.update_of_ne h ..

theorem store_drop_of_ne (h : k ≠ id) : (s.drop id).store k = s.store k :=
  Function.update_of_ne h ..

variable {s store kept}

theorem store_drop_eq_some_iff :
    (s.drop id).store k = some store ↔ k ≠ id ∧ s.store k = some store := by
  by_cases hk : k = id
  · simp [hk]
  · simp [s.store_drop_of_ne hk, hk]

theorem store_keep_eq_some_iff :
    (s.keep kept).store k = some store ↔ kept = some k ∧ s.store k = some store := by
  rw [keep]
  by_cases hk : kept = some k
  · simp [hk]
  · simp [hk]

theorem isSome_store_drop_iff :
    ((s.drop id).store k).isSome = true ↔ k ≠ id ∧ (s.store k).isSome = true := by
  by_cases hk : k = id
  · simp [hk]
  · simp [s.store_drop_of_ne hk, hk]

end

/-- The directory at a place of a tree is a shelf: it has the pointer and the stores, every file of a
generation has the proper name, and no directory is where a file belongs. -/
structure IsAt (s : Shelf) (t : FileTree) (home : List String) : Prop where
  wellFormed : t.WellFormed
  pointer : t.item? (home ++ [currentName]) = s.current.map LiesAt.pointerTo
  files : ∀ id, t.item? (home ++ [nameOf id]) = (s.store id).map .index
  names : ∀ name id, idOfName? name = some id → (t.item? (home ++ [name])).isSome = true →
    name = nameOf id
  clear : ∀ name, name = lockName ∨ name = draftName ∨ (∃ id, name = journalName id) →
    t.hasDirectory (home ++ [name]) = false
  fits : ∀ id, s.current = some id ∨ (s.store id).isSome = true → id < UInt64.size

/-- One shelf after another: the directory stays in its place, and so does the lock file. -/
structure Turns (home : List String) (t t' : FileTree) (s' : Shelf) : Prop where
  isAt : s'.IsAt t' home
  lies : ∀ d : IndexDirectory, d.LiesAt t home → d.LiesAt t' home
  lock : (t.item? (home ++ [lockName])).isSome = true → (t'.item? (home ++ [lockName])).isSome = true

variable {s s' : Shelf} {t t' t'' : FileTree} {home : List String} {d : IndexDirectory} {id : Nat}

theorem Turns.trans {s'' : Shelf} (h : Turns home t t' s') (h' : Turns home t' t'' s'') :
    Turns home t t'' s'' :=
  ⟨h'.isAt, fun d hd => h'.lies d (h.lies d hd), fun hlock => h'.lock (h.lock hlock)⟩

namespace IsAt

theorem refl (h : s.IsAt t home) : Turns home t t s := ⟨h, fun _ => id, id⟩

/-- A chain of edits that gives no file an improper name leads from one shelf to another. -/
theorem turns (h : s.IsAt t home) (hd : d.LiesAt t home) {may : String → Option FileItem → Prop}
    (hedits : Edits home may t t')
    (hmay : ∀ name file, may name (some file) → idOfName? name = none ∨ ∃ id, name = nameOf id)
    (hlock : ¬ may lockName none)
    (hpointer : t'.item? (home ++ [currentName]) = s'.current.map LiesAt.pointerTo)
    (hfiles : ∀ id, t'.item? (home ++ [nameOf id]) = (s'.store id).map .index)
    (hfits : ∀ id, s'.current = some id ∨ (s'.store id).isSome = true → id < UInt64.size) :
    Turns home t t' s' := by
  refine ⟨⟨(hedits.wellFormed h.wellFormed hd).1, hpointer, hfiles, ?_, ?_, hfits⟩,
    fun d hd => (hedits.wellFormed h.wellFormed hd).2, fun hsome => ?_⟩
  · intro name id hname hsome
    rcases hedits.item? h.wellFormed hd name with hsame | hnew
    · rw [hsame] at hsome
      exact h.names name id hname hsome
    · obtain ⟨file, hfile⟩ := Option.isSome_iff_exists.mp hsome
      rw [hfile] at hnew
      rcases hmay name file hnew with hnone | ⟨other, rfl⟩
      · rw [hname] at hnone
        cases hnone
      · -- the number in the name can be read back, since it fits
        have hother : other < UInt64.size := by
          refine hfits other (Or.inr ?_)
          rw [hfiles] at hsome
          simpa using hsome
        rw [idOfName?_nameOf hother] at hname
        rw [Option.some.inj hname]
  · intro name hname
    rw [hedits.hasDirectory_eq h.wellFormed hd]
    exact h.clear name hname
  · rcases hedits.item? h.wellFormed hd lockName with hsame | hnew
    · rwa [hsame]
    · rw [Option.isSome_iff_ne_none]
      intro hnone
      rw [hnone] at hnew
      exact hlock hnew

/-- A directory with nothing in it is an empty shelf. -/
theorem of_empty (hwf : t.WellFormed) (hempty : t.namesIn home = []) :
    IsAt { current := none, store := fun _ => none } t home := by
  have hnone : ∀ name, t.item? (home ++ [name]) = none := by
    intro name
    by_contra hsome
    have hmem := hwf.mem_namesIn.mpr (Option.isSome_iff_ne_none.mpr hsome)
    rw [hempty] at hmem
    cases hmem
  refine ⟨hwf, hnone _, fun _ => hnone _, fun name id _ hsome => ?_, fun name _ => ?_,
    fun _ hid => ?_⟩
  · rw [hnone] at hsome
    cases hsome
  · rw [FileTree.hasDirectory, hnone]
  · rcases hid with hid | hid <;> cases hid

/-! ## Reading -/

theorem readCurrent_eq (h : s.IsAt t home) (hd : d.LiesAt t home) :
    d.readCurrent t = .ok s.current := by
  cases hcurrent : s.current with
  | none => exact hd.readCurrent_none (by rw [h.pointer, hcurrent]; rfl)
  | some id =>
      refine hd.readCurrent_eq (h.fits id (Or.inl hcurrent)) ?_
      rw [h.pointer, hcurrent]
      rfl

/-- A number is found in the directory exactly if it has a store. -/
theorem mem_ids_iff (h : s.IsAt t home) :
    id ∈ (t.namesIn home).filterMap idOfName? ↔ (s.store id).isSome = true := by
  have hfile : (t.item? (home ++ [nameOf id])).isSome = (s.store id).isSome := by
    rw [h.files]
    simp
  rw [List.mem_filterMap]
  constructor
  · rintro ⟨name, hmem, hname⟩
    have hsome := h.wellFormed.mem_namesIn.mp hmem
    rwa [h.names name id hname hsome, hfile] at hsome
  · intro hsome
    refine ⟨nameOf id, h.wellFormed.mem_namesIn.mpr ?_, idOfName?_nameOf (h.fits id (Or.inr hsome))⟩
    rwa [hfile]

/-- The number of a new generation is larger than all that were used. -/
theorem nextId_spec (h : s.IsAt t home) (hd : d.LiesAt t home) (hid : d.nextId t = .ok id) :
    id < UInt64.size ∧ (∀ c, s.current = some c → c < id) ∧
      ∀ k, (s.store k).isSome = true → k < id := by
  obtain ⟨hfits, ⟨current, hread, hcurrent⟩, hfiles⟩ := hd.nextId_spec h.wellFormed hid
  obtain rfl := Except.ok.inj ((h.readCurrent_eq hd).symm.trans hread)
  refine ⟨hfits, hcurrent, fun k hk => ?_⟩
  refine hfiles (nameOf k) k (idOfName?_nameOf (h.fits k (Or.inr hk))) ?_
  rwa [h.files, Option.isSome_map]

/-- A generation can be opened exactly if it has a store whose facts can be used. -/
theorem openGeneration_iff {w w' : Workspace} (h : s.IsAt w.tree home)
    (hd : d.LiesAt w.tree home) {g : Generation} :
    w.openGeneration id (d.fileFor id) = .ok (w', g) ↔
      ∃ store, s.store id = some store ∧ store.facts = some g.facts ∧
        g.facts.schema = Store.schemaVersion ∧
        g = { token := w.nextToken, id, path := d.fileFor id, facts := g.facts } ∧
        w' = { w with nextToken := w.nextToken + 1 } := by
  have hfile : ∀ store, w.tree.item? (home ++ [nameOf id]) = some (.index store) ↔
      s.store id = some store := by
    intro store
    rw [h.files, Option.map_eq_some_iff]
    constructor
    · rintro ⟨store', hstore, hsame⟩
      cases hsame
      exact hstore
    · exact fun hstore => ⟨store, hstore, rfl⟩
  rw [Workspace.openGeneration_ok_iff, Generation.openAt_ok_iff hd]
  constructor
  · rintro ⟨⟨store, hstore, hfacts, hschema, hg⟩, hw⟩
    exact ⟨store, (hfile store).mp hstore, hfacts, hschema, hg, hw⟩
  · rintro ⟨store, hstore, hfacts, hschema, hg, hw⟩
    exact ⟨⟨store, (hfile store).mpr hstore, hfacts, hschema, hg⟩, hw⟩

/-- What is read of a generation is its store. -/
theorem reader_iff (h : s.IsAt t home) (hd : d.LiesAt t home) {g : Generation}
    (hpath : g.path = d.fileFor g.id) {purpose table : String} {store : Store} :
    g.reader t purpose table = .ok store ↔ s.store g.id = some store := by
  rw [Generation.reader, hpath, fileFor, hd.openStore_entry (isName_nameOf g.id), h.files,
    Option.map_eq_some_iff]
  constructor
  · rintro ⟨store', hstore, hsame⟩
    cases hsame
    exact hstore
  · exact fun hstore => ⟨store, hstore, rfl⟩

/-! ## Changing -/

theorem of_put_fits (h : s.IsAt t home) (hid : id < UInt64.size) {store : Store} (k : Nat)
    (hk : (s.put id store).current = some k ∨ ((s.put id store).store k).isSome = true) :
    k < UInt64.size := by
  by_cases hsame : k = id
  · exact hsame ▸ hid
  · refine h.fits k (hk.imp_right fun hsome => ?_)
    rwa [s.store_put_of_ne store hsame] at hsome

/-- A new store goes into a file of its own. -/
theorem stored (h : s.IsAt t home) (hd : d.LiesAt t home) (hfree : s.store id = none)
    (hid : id < UInt64.size) (store : Store) :
    Turns home t (IndexDirectory.stored home t id store) (s.put id store) := by
  have hnone : t.item? (home ++ [nameOf id]) = none := by
    rw [h.files, hfree]
    rfl
  have hedits := edits_stored hnone (h.clear _ (Or.inr (Or.inr ⟨id, rfl⟩))) store
  refine h.turns hd hedits ?_ ?_ ?_ ?_ (h.of_put_fits hid)
  · rintro name file (rfl | ⟨-, hgone⟩)
    · exact Or.inr ⟨id, rfl⟩
    · cases hgone
  · rintro (hname | ⟨hname, -⟩)
    · exact nameOf_ne_lock id hname.symm
    · exact lockName_ne_journal id hname
  · rcases hedits.item? h.wellFormed hd currentName with hsame | hname | ⟨hname, -⟩
    · exact hsame.trans h.pointer
    · exact absurd hname.symm (nameOf_ne_pointer id).1
    · exact absurd hname.symm (journalName_ne_pointer id).1
  · intro k
    by_cases hk : k = id
    · subst hk
      rw [item?_stored, store_put_self]
      rfl
    · rw [s.store_put_of_ne store hk, ← h.files]
      rcases hedits.item? h.wellFormed hd (nameOf k) with hsame | hname | ⟨hname, -⟩
      · exact hsame
      · exact absurd (nameOf_inj.mp hname) hk
      · exact absurd hname (nameOf_ne_journal k id)

theorem create_ok_iff (h : s.IsAt t home) (hd : d.LiesAt t home) {store : Store} :
    d.create t id store = .ok t' ↔ s.store id = none ∧
      t' = IndexDirectory.stored home t id store := by
  have hjournal := h.clear _ (Or.inr (Or.inr ⟨id, rfl⟩))
  rw [hd.create_ok_iff h.wellFormed, h.files, Option.map_eq_none_iff]
  exact ⟨fun ⟨hfree, _, ht⟩ => ⟨hfree, ht⟩, fun ⟨hfree, ht⟩ => ⟨hfree, hjournal, ht⟩⟩

/-- A new file can be created. -/
theorem create_ne_error (h : s.IsAt t home) (hd : d.LiesAt t home) (hfree : s.store id = none)
    (store : Store) (f : Fault) : d.create t id store ≠ .error f := by
  intro herror
  cases herror.symm.trans ((h.create_ok_iff hd).mpr ⟨hfree, rfl⟩)

/-- No directory is in place of the file of a generation. -/
theorem not_directory (h : s.IsAt t home) (id : Nat) :
    t.hasDirectory (home ++ [nameOf id]) = false := by
  rw [FileTree.hasDirectory, h.files]
  cases s.store id <;> rfl

/-- The store in a file is replaced. -/
theorem set (h : s.IsAt t home) (hd : d.LiesAt t home) (hsome : (s.store id).isSome = true)
    (store : Store) :
    Turns home t (t.set (home ++ [nameOf id]) (.index store)) (s.put id store) := by
  have hedits : Edits home (fun name _ => name = nameOf id) t
      (t.set (home ++ [nameOf id]) (.index store)) :=
    .write .refl (isName_nameOf id) (h.not_directory id) rfl rfl
  refine h.turns hd hedits (fun name _ hname => Or.inr ⟨id, hname⟩)
    (fun hname => nameOf_ne_lock id hname.symm) ?_ ?_ (h.of_put_fits (h.fits id (Or.inr hsome)))
  · rcases hedits.item? h.wellFormed hd currentName with hsame | hname
    · exact hsame.trans h.pointer
    · exact absurd hname.symm (nameOf_ne_pointer id).1
  · intro k
    by_cases hk : k = id
    · subst hk
      rw [FileTree.item?_set_self _ (by simp), store_put_self]
      rfl
    · rw [s.store_put_of_ne store hk, ← h.files]
      exact (hedits.item? h.wellFormed hd (nameOf k)).resolve_right
        fun hname => hk (nameOf_inj.mp hname)

/-- A store is taken away with its file. -/
theorem removeStore (h : s.IsAt t home) (hd : d.LiesAt t home) (id : Nat) :
    Turns home t (SourceIndex.removeStore t (d.fileFor id)) (s.drop id) := by
  have hedits := hd.edits_removeStore h.wellFormed id
  refine h.turns hd hedits (fun _ _ hmay => nomatch hmay.2) ?_ ?_ ?_ ?_
  · rintro ⟨hname | hname, -⟩
    · exact nameOf_ne_lock id hname.symm
    · exact lockName_ne_journal id hname
  · rcases hedits.item? h.wellFormed hd currentName with hsame | ⟨hname | hname, -⟩
    · exact hsame.trans h.pointer
    · exact absurd hname.symm (nameOf_ne_pointer id).1
    · exact absurd hname.symm (journalName_ne_pointer id).1
  · intro k
    by_cases hk : k = id
    · subst hk
      rw [store_drop_self, hd.item?_removeStore_none h.wellFormed]
      · rfl
      · rw [FileTree.hasDirectory, h.files]
        cases s.store k <;> rfl
    · rw [s.store_drop_of_ne hk, ← h.files]
      rcases hedits.item? h.wellFormed hd (nameOf k) with hsame | ⟨hname | hname, -⟩
      · exact hsame
      · exact absurd (nameOf_inj.mp hname) hk
      · exact absurd hname (nameOf_ne_journal k id)
  · intro k hk
    refine h.fits k (hk.imp_right fun hsome => ?_)
    by_cases hsame : k = id
    · rw [hsame, store_drop_self] at hsome
      cases hsome
    · rwa [s.store_drop_of_ne hsame] at hsome

/-- Only the store that is to be kept stays. -/
theorem sweep (h : s.IsAt t home) (hd : d.LiesAt t home) (kept : Option Nat) :
    Turns home t (d.sweep t kept) (s.keep kept) := by
  obtain ⟨ids, hids, hperm, -⟩ := hd.ids_spec
  have hmem : ∀ id, id ∈ ids ↔ (s.store id).isSome = true :=
    fun id => hperm.mem_iff.trans h.mem_ids_iff
  -- the stores of any list of numbers can be taken away one after the other
  have hfold : ∀ (swept : List Nat) {t : FileTree} {s : Shelf}, s.IsAt t home → d.LiesAt t home →
      Turns home t (swept.foldl (fun t id => SourceIndex.removeStore t (d.fileFor id)) t)
        { s with store := fun id => if id ∈ swept then none else s.store id } := by
    intro swept
    induction swept with
    | nil => exact fun h _ => by simpa using h.refl
    | cons id swept ih =>
        intro t s h hd
        have hfirst := h.removeStore hd id
        have hrest := ih hfirst.isAt (hfirst.lies d hd)
        have hsame : ∀ k, (if k ∈ swept then none else (s.drop id).store k) =
            if k ∈ id :: swept then none else s.store k := by
          intro k
          by_cases hk : k = id
          · simp [hk, drop]
          · simp [hk, drop]
        simp only [hsame] at hrest
        exact hfirst.trans hrest
  have hswept := hfold (ids.filter fun id => some id ≠ kept) h hd
  have hsame : ∀ id, (if id ∈ ids.filter (fun id => some id ≠ kept) then none else s.store id) =
      (s.keep kept).store id := by
    intro id
    simp only [List.mem_filter, hmem, keep, decide_eq_true_eq]
    cases hstore : s.store id with
    | none => simp
    | some store => simp [eq_comm]
  simp only [hsame] at hswept
  rw [IndexDirectory.sweep, hids]
  exact hswept

/-- The pointer can be set, and that is all that changes. -/
theorem writeCurrent (h : s.IsAt t home) (hd : d.LiesAt t home) (hid : id < UInt64.size) :
    (d.writeCurrent t id).2 = .ok () ∧ Turns home t (d.writeCurrent t id).1 (s.point id) := by
  have hdraft := h.clear draftName (Or.inr (Or.inl rfl))
  have hpointer : t.hasDirectory (home ++ [currentName]) = false := by
    rw [FileTree.hasDirectory, h.pointer]
    cases s.current <;> rfl
  refine ⟨(hd.writeCurrent_ok_iff h.wellFormed id).mpr ⟨hdraft, hpointer⟩, ?_⟩
  have hedits := hd.edits_writeCurrent h.wellFormed id
  refine h.turns hd hedits ?_ ?_ ?_ ?_ ?_
  · rintro name file ⟨rfl | rfl, -⟩
    · exact Or.inl idOfName?_currentName
    · exact Or.inl idOfName?_draftName
  · rintro ⟨hname | hname, -⟩
    · exact absurd hname (by decide)
    · exact absurd hname (by decide)
  · rw [hd.writeCurrent_eq h.wellFormed, if_neg (by simp [hdraft])]
    dsimp only
    rw [if_neg (by simp [hpointer])]
    exact FileTree.item?_set_self _ (by simp) _
  · intro k
    rcases hedits.item? h.wellFormed hd (nameOf k) with hsame | ⟨hname | hname, -⟩
    · exact hsame.trans (h.files k)
    · exact absurd hname (nameOf_ne_pointer k).1
    · exact absurd hname (nameOf_ne_pointer k).2
  · rintro k (hk | hk)
    · exact Option.some.inj hk ▸ hid
    · exact h.fits k (Or.inr hk)

/-- Taking the build lock changes nothing of the shelf. -/
theorem lock {w : Workspace} (h : s.IsAt w.tree home) (hd : d.LiesAt w.tree home) :
    Turns home w.tree (w.lock d).1.tree s := by
  have hedits := Workspace.edits_lock hd
  refine h.turns hd hedits ?_ (fun hmay => nomatch hmay.2) ?_ ?_ h.fits
  · rintro name file ⟨rfl, -⟩
    exact Or.inl idOfName?_lockName
  · exact ((hedits.item? h.wellFormed hd currentName).resolve_right
      fun hmay => absurd hmay.1 (by decide)).trans h.pointer
  · exact fun k => ((hedits.item? h.wellFormed hd (nameOf k)).resolve_right
      fun hmay => nameOf_ne_lock k hmay.1).trans (h.files k)

/-- The build lock can be taken if nobody holds it. -/
theorem lock_ok {w : Workspace} (h : s.IsAt w.tree home) (hd : d.LiesAt w.tree home)
    (hfree : home ++ [lockName] ∉ w.locked) : (w.lock d).2 = .ok true := by
  have hdir := h.clear lockName (Or.inl rfl)
  rw [Workspace.lock_eq hd h.wellFormed, if_neg (by simp [hdir])]
  split
  · rw [if_neg (by simpa using hfree)]
  · rfl

/-- What others do elsewhere changes nothing of the shelf. -/
theorem elsewhere (h : s.IsAt t home) (hwf : t'.WellFormed)
    (hlies : ∀ d : IndexDirectory, d.LiesAt t home → d.LiesAt t' home)
    (hsame : ∀ name, t'.item? (home ++ [name]) = t.item? (home ++ [name])) :
    Turns home t t' s := by
  refine ⟨⟨hwf, (hsame _).trans h.pointer, fun id => (hsame _).trans (h.files id), ?_, ?_, h.fits⟩,
    hlies, fun hlock => hsame lockName ▸ hlock⟩
  · intro name id hname hsome
    exact h.names name id hname (hsame name ▸ hsome)
  · intro name hname
    rw [FileTree.hasDirectory, hsame]
    exact h.clear name hname

end IsAt

end Shelf

end SourceIndex
