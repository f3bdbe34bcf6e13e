import Mathlib
import SourceIndex.Generation.Workspace
import SourceIndex.Proofs.Files.Tree

/-! # Files of an index directory

An index directory *lies at* a place of a tree if its path leads to a directory there that holds
no links (`IndexDirectory.LiesAt`). Then every operation on a file of the directory comes down to
the item at one spot (`LiesAt.locate_entry`, `LiesAt.write_entry`, `LiesAt.delete_entry`,
`LiesAt.move_entry`), and the operations of the library are chains of edits at such spots
(`IndexDirectory.Edits`): they keep the tree well-formed and the directory in its place, and every
index store there is an old one or one of those that were to be written.
-/

set_option autoImplicit false

namespace SourceIndex

namespace IndexDirectory

/-! ## Names -/

theorem slash_not_mem_sixDigits (id : Nat) : '/' ∉ (sixDigits id).toList := by
  have hzeros : ∀ n, '/' ∉ ("".pushn '0' n).toList := by
    intro n
    rw [String.pushn_eq_repeat_push]
    induction n with
    | zero => simp [Nat.repeat]
    | succ n ih => simpa [Nat.repeat] using ih
  intro h
  rw [sixDigits, String.toList_append, List.mem_append] at h
  rcases h with h | h
  · exact hzeros _ h
  · rw [Nat.toString_eq_repr, Nat.toList_repr] at h
    have hdigit := Nat.isDigit_of_mem_toDigits (by decide) (by decide) h
    cases hdigit

theorem isName_of_head {name : String} {c : Char} (h : name.toList.head? = some c) (hc : c ≠ '.')
    (hslash : '/' ∉ name.toList) : Path.IsName name := by
  refine ⟨?_, ?_, ?_, hslash⟩ <;> rintro rfl <;> simp at h
  · exact hc h.symm
  · exact hc h.symm

theorem isName_nameOf (id : Nat) : Path.IsName (nameOf id) := by
  refine isName_of_head (c := 'g') ?_ ?_ ?_
  · simp [nameOf]
  · decide
  · have hslash := slash_not_mem_sixDigits id
    simp [nameOf, hslash]

/-- The name of the journal of a generation. -/
def journalName (id : Nat) : String := nameOf id ++ "-journal"

theorem isName_journal (id : Nat) : Path.IsName (journalName id) := by
  refine isName_of_head (c := 'g') ?_ ?_ ?_
  · simp [journalName, nameOf]
  · decide
  · have hslash := slash_not_mem_sixDigits id
    simp [journalName, nameOf, hslash]

theorem isName_currentName : Path.IsName currentName := by decide

/-- The file in which the pointer to a generation is drafted. -/
def draftName : String := currentName ++ ".tmp"

theorem isName_draftName : Path.IsName draftName := by decide

theorem isName_lockName : Path.IsName lockName := by decide

theorem nameOf_ne_pointer (id : Nat) : nameOf id ≠ currentName ∧ nameOf id ≠ draftName := by
  constructor
  all_goals
    intro h
    have hhead := congrArg (fun name => name.toList.head?) h
    simp [nameOf, currentName, draftName] at hhead

theorem journalName_ne_pointer (id : Nat) :
    journalName id ≠ currentName ∧ journalName id ≠ draftName := by
  constructor
  all_goals
    intro h
    have hhead := congrArg (fun name => name.toList.head?) h
    simp [journalName, nameOf, currentName, draftName] at hhead

theorem nameOf_ne_journal (id k : Nat) : nameOf id ≠ journalName k := by
  intro h
  have hlast := congrArg (fun name => name.toList.reverse.head?) h
  simp [journalName, nameOf] at hlast

theorem nameOf_ne_lock (id : Nat) : nameOf id ≠ lockName := by
  intro h
  have hhead := congrArg (fun name => name.toList.head?) h
  simp [nameOf, lockName] at hhead

theorem lockName_ne_journal (id : Nat) : lockName ≠ journalName id := by
  intro h
  have hhead := congrArg (fun name => name.toList.head?) h
  simp [journalName, nameOf, lockName] at hhead

theorem names_of_isName {name : String} (h : Path.IsName name) : FileTree.Names name :=
  ⟨fun hidle => hidle.elim h.1 h.2.1, h.2.2.1⟩

theorem not_isAbsolute_of_isName {name : String} (h : Path.IsName name) :
    (⟨name⟩ : Path).isAbsolute = false := by
  have habs : (⟨"/".intercalate [name]⟩ : Path).isAbsolute = false :=
    Path.not_isAbsolute_of_names (by simpa using h)
  simpa using habs

theorem pieces_of_isName {name : String} (h : Path.IsName name) :
    FileTree.pieces ⟨name⟩ = [name] := by
  have hsplit : Text.split (· == '/') ("/".intercalate [name]) = [name] :=
    Text.split_intercalate rfl (by simp) (by simpa using h.2.2.2)
  simpa [FileTree.pieces] using hsplit

-- from here on, names of files are not to be computed
attribute [local irreducible] nameOf journalName

/-! ## The place of a directory -/

/-- The path of a directory leads to a place in a tree, and no link is in the directory there. -/
structure LiesAt (d : IndexDirectory) (t : FileTree) (home : List String) : Prop where
  located : t.locate d.path = .ok home
  directory : t.hasDirectory home = true
  noLinks : ∀ name target, t.item? (home ++ [name]) ≠ some (.link target)

namespace LiesAt

variable {d : IndexDirectory} {t : FileTree} {home : List String} {name : String}

/-- The pieces of the path of a file: some that lead to the directory, then the name. -/
theorem leads_entry (h : d.LiesAt t home) (hn : Path.IsName name) :
    ∃ lead left, FileTree.pieces (d.entry name) = lead ++ [name] ∧
      t.Leads FileTree.maxLinks [] lead left home := by
  obtain ⟨lead, left, hpieces, hleads⟩ :=
    FileTree.leads_join h.located (not_isAbsolute_of_isName hn)
  rw [pieces_of_isName hn] at hpieces
  exact ⟨lead, left, hpieces, hleads⟩

/-- Where the path of a file leads. -/
theorem locate_entry (h : d.LiesAt t home) (hn : Path.IsName name) :
    t.locate (d.entry name) =
      if (t.item? (home ++ [name])).isSome then .ok (home ++ [name]) else .error .missing := by
  obtain ⟨lead, left, hpieces, hleads⟩ := h.leads_entry hn
  have hnames := names_of_isName hn
  rw [FileTree.locate, hpieces, hleads.locateFrom_append, FileTree.locateFrom_cons, h.directory]
  simp only [hnames.1, hnames.2, Bool.not_true, Bool.false_eq_true, if_false]
  split
  · rename_i hitem
    simp [hitem]
  · rename_i target hitem
    exact absurd hitem (h.noLinks name target)
  · rename_i item hlink hitem
    simp [hitem, FileTree.locateFrom_nil]

theorem spot_entry (h : d.LiesAt t home) (hn : Path.IsName name) :
    t.spot (d.entry name) = .ok (home ++ [name]) := by
  obtain ⟨lead, left, hpieces, hleads⟩ := h.leads_entry hn
  have habove : t.locateFrom FileTree.maxLinks [] lead = .ok home := hleads.locateFrom_eq
  rw [FileTree.spot, hpieces]
  simp [habove, h.directory]

theorem holds_entry (h : d.LiesAt t home) (hn : Path.IsName name) :
    t.holds (d.entry name) = (t.item? (home ++ [name])).isSome := by
  rw [FileTree.holds, h.locate_entry hn]
  cases t.item? (home ++ [name]) <;> rfl

theorem write_entry (h : d.LiesAt t home) (hn : Path.IsName name) (item : FileItem) :
    t.write (d.entry name) item =
      if t.hasDirectory (home ++ [name]) then .error .isDirectory
      else .ok (t.set (home ++ [name]) item) := by
  rw [FileTree.write, h.locate_entry hn, h.spot_entry hn]
  cases hitem : t.item? (home ++ [name]) with
  | none => simp [FileTree.hasDirectory, hitem]
  | some i => rfl

theorem delete_entry (h : d.LiesAt t home) (hn : Path.IsName name) :
    t.delete (d.entry name) =
      if t.hasDirectory (home ++ [name]) then t else t.remove (home ++ [name]) := by
  rw [FileTree.delete, h.spot_entry hn]

theorem move_entry (h : d.LiesAt t home) {source target : String} (hs : Path.IsName source)
    (ht : Path.IsName target) :
    t.move (d.entry source) (d.entry target) =
      match t.item? (home ++ [source]) with
      | none => .error .missing
      | some item =>
        if t.hasDirectory (home ++ [target]) then .error .isDirectory
        else .ok ((t.remove (home ++ [source])).set (home ++ [target]) item) := by
  cases hitem : t.item? (home ++ [source]) with
  | none => simp only [FileTree.move, h.spot_entry hs, h.spot_entry ht, hitem]
  | some item => simp only [FileTree.move, h.spot_entry hs, h.spot_entry ht, hitem]

theorem openStore_entry (h : d.LiesAt t home) (hn : Path.IsName name) {purpose table : String}
    {store : Store} :
    openStore t (d.entry name) purpose table = .ok store ↔
      t.item? (home ++ [name]) = some (.index store) := by
  rw [openStore, h.locate_entry hn]
  cases hitem : t.item? (home ++ [name]) with
  | none => simp
  | some item =>
      cases item with
      | index s => simp [hitem]
      | file bytes =>
          simp only [Option.isSome_some, if_true, hitem]
          split <;> simp
      | barred size => simp [hitem]
      | directory => simp [hitem]
      | link target => simp [hitem]

/-- The directory is there already. -/
theorem makeDirectory_eq (h : d.LiesAt t home) : t.makeDirectory d.path = .ok t := by
  have hbelow : ∀ ps above left, t.Leads FileTree.maxLinks [] (above ++ ps) left home →
      t.makeBelow above ps = .ok t := by
    intro ps
    induction ps with
    | nil => intro above left _; rfl
    | cons p ps ih =>
        intro above left hleads
        rw [List.append_cons] at hleads
        obtain ⟨mid, x, hmid, hrest⟩ := hleads.exists_of_append
        have hdir : t.hasDirectory x = true := by
          cases ps with
          | nil =>
              cases hrest
              exact h.directory
          | cons q ps => exact hrest.hasDirectory (by simp)
        rw [FileTree.makeBelow, hmid.locateFrom_eq]
        simp only [hdir, if_true]
        exact ih _ left hleads
  obtain ⟨left, hleads⟩ := FileTree.leads_of_locateFrom h.located
  exact hbelow _ [] left hleads

/-- What is not a directory is a file, since there are no links. -/
theorem isFile_of_item? (h : d.LiesAt t home) (hdir : t.hasDirectory (home ++ [name]) = false) :
    ∀ item, t.item? (home ++ [name]) = some item → item.isFile = true := by
  intro item hitem
  cases item with
  | file _ | index _ | barred _ => rfl
  | directory => simp [FileTree.hasDirectory, hitem] at hdir
  | link target => exact absurd hitem (h.noLinks name target)

theorem edit {t' : FileTree} (h : d.LiesAt t home)
    (hedit : FileTree.Edit (home ++ [name]) t t') : d.LiesAt t' home where
  located := hedit.locate h.located (by simp)
  directory := hedit.hasDirectory h.directory
  noLinks other target hitem := by
    by_cases hother : home ++ [other] = home ++ [name]
    · rw [hother] at hitem
      cases hedit.after _ hitem
    · rw [hedit.same _ hother] at hitem
      exact h.noLinks other target hitem

end LiesAt

/-! ## Chains of edits -/

/-- A tree comes from another one by writing and removing files directly in the directory at
`home`: `may` says which names may get which file, or none. -/
inductive Edits (home : List String) (may : String → Option FileItem → Prop) (t : FileTree) :
    FileTree → Prop where
  | refl : Edits home may t t
  | write {t' name file} : Edits home may t t' → Path.IsName name →
      t'.hasDirectory (home ++ [name]) = false → file.isFile = true → may name (some file) →
      Edits home may t (t'.set (home ++ [name]) file)
  | remove {t' name} : Edits home may t t' → t'.hasDirectory (home ++ [name]) = false →
      may name none → Edits home may t (t'.remove (home ++ [name]))

namespace Edits

variable {d : IndexDirectory} {home : List String} {may : String → Option FileItem → Prop}
  {t t' t'' : FileTree}

theorem trans (h : Edits home may t t') (h' : Edits home may t' t'') : Edits home may t t'' := by
  induction h' with
  | refl => exact h
  | write _ hname hdir hfile hmay ih => exact .write ih hname hdir hfile hmay
  | remove _ hdir hmay ih => exact .remove ih hdir hmay

theorem mono {may' : String → Option FileItem → Prop}
    (hle : ∀ name file, may name file → may' name file) (h : Edits home may t t') :
    Edits home may' t t' := by
  induction h with
  | refl => exact .refl
  | write _ hname hdir hfile hmay ih => exact .write ih hname hdir hfile (hle _ _ hmay)
  | remove _ hdir hmay ih => exact .remove ih hdir (hle _ _ hmay)

/-- A chain of edits keeps the tree well-formed and the directory in its place. -/
theorem wellFormed (h : Edits home may t t') (hwf : t.WellFormed) (hd : d.LiesAt t home) :
    t'.WellFormed ∧ d.LiesAt t' home := by
  induction h with
  | refl => exact ⟨hwf, hd⟩
  | write _ hname hdir hfile _ ih =>
      obtain ⟨hwf', hd'⟩ := ih
      have hspot := hd'.isFile_of_item? hdir
      exact ⟨hwf'.set hd'.directory hname hspot hfile,
        hd'.edit (hwf'.edit_set (by simp) hspot hfile)⟩
  | remove _ hdir _ ih =>
      obtain ⟨hwf', hd'⟩ := ih
      have hspot := hd'.isFile_of_item? hdir
      exact ⟨hwf'.remove (by simp) hspot, hd'.edit (hwf'.edit_remove (by simp) hspot)⟩

/-- What has a name afterwards had it before, or may have got it. -/
theorem item? (h : Edits home may t t') (hwf : t.WellFormed) (hd : d.LiesAt t home)
    (name : String) : t'.item? (home ++ [name]) = t.item? (home ++ [name]) ∨
      may name (t'.item? (home ++ [name])) := by
  induction h with
  | refl => exact Or.inl rfl
  | @write t' other file hrest _ hdir hfile hmay ih =>
      obtain ⟨hwf', hd'⟩ := hrest.wellFormed hwf hd
      by_cases hother : name = other
      · subst hother
        rw [FileTree.item?_set_self _ (by simp)]
        exact Or.inr hmay
      · have hedit := hwf'.edit_set (by simp) (hd'.isFile_of_item? hdir) hfile
        rwa [hedit.same _ (by simpa using hother)]
  | @remove t' other hrest hdir hmay ih =>
      obtain ⟨hwf', hd'⟩ := hrest.wellFormed hwf hd
      by_cases hother : name = other
      · subst hother
        rw [FileTree.item?_remove_of_prefix _ (by simp) (List.prefix_refl _)]
        exact Or.inr hmay
      · have hedit := hwf'.edit_remove (by simp) (hd'.isFile_of_item? hdir)
        rwa [hedit.same _ (by simpa using hother)]

/-- What was a directory still is one, and nothing else is. -/
theorem hasDirectory_eq (h : Edits home may t t') (hwf : t.WellFormed) (hd : d.LiesAt t home)
    (names : List String) : t'.hasDirectory names = t.hasDirectory names := by
  induction h with
  | refl => rfl
  | write hrest _ hdir hfile _ ih =>
      obtain ⟨hwf', hd'⟩ := hrest.wellFormed hwf hd
      have hedit := hwf'.edit_set (by simp) (hd'.isFile_of_item? hdir) hfile
      exact (hedit.hasDirectory_eq names).trans ih
  | remove hrest hdir _ ih =>
      obtain ⟨hwf', hd'⟩ := hrest.wellFormed hwf hd
      have hedit := hwf'.edit_remove (by simp) (hd'.isFile_of_item? hdir)
      exact (hedit.hasDirectory_eq names).trans ih

/-- Nothing changes outside of the directory. -/
theorem item?_elsewhere (h : Edits home may t t') (hwf : t.WellFormed) (hd : d.LiesAt t home)
    {names : List String} (hnames : ∀ name, names ≠ home ++ [name]) :
    t'.item? names = t.item? names := by
  induction h with
  | refl => rfl
  | write hrest _ hdir hfile _ ih =>
      obtain ⟨hwf', hd'⟩ := hrest.wellFormed hwf hd
      exact ((hwf'.edit_set (by simp) (hd'.isFile_of_item? hdir) hfile).same _ (hnames _)).trans ih
  | remove hrest hdir _ ih =>
      obtain ⟨hwf', hd'⟩ := hrest.wellFormed hwf hd
      exact ((hwf'.edit_remove (by simp) (hd'.isFile_of_item? hdir)).same _ (hnames _)).trans ih

end Edits

/-! ## Operations as chains of edits -/

/-- Only the file of a generation and its journal go away. -/
def mayRemove (id : Nat) (name : String) (file : Option FileItem) : Prop :=
  (name = nameOf id ∨ name = journalName id) ∧ file = none

/-- Only the file of a generation gets something, and its journal goes away. -/
def mayStore (id : Nat) (name : String) (file : Option FileItem) : Prop :=
  name = nameOf id ∨ name = journalName id ∧ file = none

/-- Only the pointer to the generation in use and its draft change, and neither becomes a store. -/
def mayPoint (name : String) (file : Option FileItem) : Prop :=
  (name = currentName ∨ name = draftName) ∧ ∀ store, file ≠ some (.index store)

/-- Only the lock file is made. -/
def mayLock (name : String) (file : Option FileItem) : Prop :=
  name = lockName ∧ file = some (.file .empty)

/-- The places of the store of a generation: of its file and of its journal. -/
def storeSpots (home : List String) (id : Nat) : List (List String) :=
  [home ++ [nameOf id], home ++ [journalName id]]

theorem mem_storeSpots {home : List String} {name : String} {id : Nat} :
    home ++ [name] ∈ storeSpots home id ↔ name = nameOf id ∨ name = journalName id := by
  simp [storeSpots]

/-- The tree with a new store in the file of a generation, and no journal beside it. -/
def stored (home : List String) (t : FileTree) (id : Nat) (store : Store) : FileTree :=
  (t.remove (home ++ [journalName id])).set (home ++ [nameOf id]) (.index store)

theorem item?_stored (home : List String) (t : FileTree) (id : Nat) (store : Store) :
    (stored home t id store).item? (home ++ [nameOf id]) = some (.index store) :=
  FileTree.item?_set_self _ (by simp) _

theorem not_prefix_of_journal (home : List String) (id : Nat) :
    ¬ home ++ [journalName id] <+: home ++ [nameOf id] := by
  intro h
  have hsame := List.append_cancel_left (h.eq_of_length (by simp))
  exact nameOf_ne_journal id id (List.cons.inj hsame).1.symm

/-- A new store is put into its file in two edits. -/
theorem edits_stored {t : FileTree} {home : List String} {id : Nat} (hfree : t.item? (home ++ [nameOf id]) = none)
    (hjournal : t.hasDirectory (home ++ [journalName id]) = false) (store : Store) :
    Edits home (mayStore id) t (stored home t id store) := by
  refine .write (.remove .refl hjournal (Or.inr ⟨rfl, rfl⟩)) (isName_nameOf id) ?_ rfl (Or.inl rfl)
  rw [FileTree.hasDirectory, FileTree.item?_remove_of_not_prefix _ (not_prefix_of_journal home id),
    hfree]

namespace LiesAt

variable {d : IndexDirectory} {t : FileTree} {home : List String}

/-- The journal of a generation lies beside its file. -/
theorem journalOf_fileFor (d : IndexDirectory) (id : Nat) :
    journalOf (d.fileFor id) = d.entry (journalName id) := by
  have hfile := not_isAbsolute_of_isName (isName_nameOf id)
  have hjournal := not_isAbsolute_of_isName (isName_journal id)
  rw [journalOf, fileFor, entry, entry, Path.join, Path.join, hfile, hjournal]
  simp only [Bool.false_eq_true, if_false, journalName]
  split <;> simp [String.append_assoc]

theorem edits_delete (h : d.LiesAt t home) {name : String} (hn : Path.IsName name)
    {may : String → Option FileItem → Prop} (hmay : may name none) :
    Edits home may t (t.delete (d.entry name)) := by
  rw [h.delete_entry hn]
  split
  · exact .refl
  · rename_i hdir
    exact .remove .refl (by simpa using hdir) hmay

theorem edits_removeStore (h : d.LiesAt t home) (hwf : t.WellFormed) (id : Nat) :
    Edits home (mayRemove id) t (removeStore t (d.fileFor id)) := by
  rw [removeStore, journalOf_fileFor]
  have hjournal := h.edits_delete (isName_journal id)
    (show mayRemove id _ none from ⟨Or.inr rfl, rfl⟩)
  have h' := (hjournal.wellFormed hwf h).2
  exact hjournal.trans (h'.edits_delete (isName_nameOf id) ⟨Or.inl rfl, rfl⟩)

/-- A file goes away from its place, a directory does not, and nothing else changes. -/
theorem item?_delete_iff (h : d.LiesAt t home) (hwf : t.WellFormed) {name : String}
    (hn : Path.IsName name) {names : List String} {item : FileItem} :
    (t.delete (d.entry name)).item? names = some item ↔
      t.item? names = some item ∧ (item = .directory ∨ names ≠ home ++ [name]) := by
  rw [h.delete_entry hn]
  by_cases hdir : t.hasDirectory (home ++ [name]) = true
  · rw [if_pos hdir]
    refine ⟨fun hitem => ⟨hitem, ?_⟩, And.left⟩
    by_cases hsame : names = home ++ [name]
    · rw [FileTree.hasDirectory_iff, ← hsame, hitem] at hdir
      exact Or.inl (Option.some.inj hdir)
    · exact Or.inr hsame
  · rw [if_neg hdir]
    have hfile := h.isFile_of_item? (by simpa using hdir)
    by_cases hsame : names = home ++ [name]
    · subst hsame
      rw [FileTree.item?_remove_of_prefix _ (by simp) (List.prefix_refl _)]
      refine ⟨nofun, fun ⟨hitem, hstays⟩ => ?_⟩
      rcases hstays with rfl | hne
      · cases hfile _ hitem
      · exact absurd rfl hne
    · rw [hwf.item?_remove hfile hsame]
      exact ⟨fun hitem => ⟨hitem, Or.inr hsame⟩, And.left⟩

/-- One store is removed. -/
theorem item?_removeStore_iff (h : d.LiesAt t home) (hwf : t.WellFormed) {id : Nat}
    {names : List String} {item : FileItem} :
    (removeStore t (d.fileFor id)).item? names = some item ↔
      t.item? names = some item ∧ (item = .directory ∨ names ∉ storeSpots home id) := by
  have hjournal := h.edits_delete (isName_journal id)
    (show mayRemove id _ none from ⟨Or.inr rfl, rfl⟩)
  obtain ⟨hwf', h'⟩ := hjournal.wellFormed hwf h
  rw [removeStore, journalOf_fileFor, fileFor, h'.item?_delete_iff hwf' (isName_nameOf id),
    h.item?_delete_iff hwf (isName_journal id), storeSpots, List.mem_pair, not_or, and_assoc,
    ← or_and_left, and_comm (a := names ≠ _)]

/-- The store of a generation is gone once it was removed. -/
theorem item?_removeStore (h : d.LiesAt t home) (hwf : t.WellFormed) (id : Nat) (store : Store) :
    (removeStore t (d.fileFor id)).item? (home ++ [nameOf id]) ≠ some (.index store) := by
  rw [ne_eq, h.item?_removeStore_iff hwf, mem_storeSpots]
  simp

/-- The file of a generation is gone once it was removed. -/
theorem item?_removeStore_none {id : Nat} (h : d.LiesAt t home) (hwf : t.WellFormed)
    (hdir : t.hasDirectory (home ++ [nameOf id]) = false) :
    (removeStore t (d.fileFor id)).item? (home ++ [nameOf id]) = none := by
  refine Option.eq_none_iff_forall_ne_some.mpr fun item hitem => ?_
  obtain ⟨hbefore, hstays⟩ := (h.item?_removeStore_iff hwf).mp hitem
  rcases hstays with rfl | hspot
  · rw [(FileTree.hasDirectory_iff _ _).mpr hbefore] at hdir
    cases hdir
  · exact hspot (mem_storeSpots.mpr (Or.inl rfl))

/-- An empty file is made for a generation that has none. -/
theorem make_eq (h : d.LiesAt t home) (id : Nat) :
    d.make t id =
      if (t.item? (home ++ [nameOf id])).isSome then
        .error (.store ("generation file already exists: " ++ (d.fileFor id).text))
      else .ok (t.set (home ++ [nameOf id]) (.file .empty)) := by
  have hholds : t.holds (d.fileFor id) = (t.item? (home ++ [nameOf id])).isSome :=
    h.holds_entry (isName_nameOf id)
  have hwrite : t.write (d.fileFor id) (.file .empty) = _ :=
    h.write_entry (isName_nameOf id) (.file .empty)
  cases hitem : t.item? (home ++ [nameOf id]) with
  | none =>
      rw [hitem] at hholds
      rw [FileTree.hasDirectory, hitem] at hwrite
      rw [make, hholds, h.makeDirectory_eq]
      simp [hwrite]
  | some item =>
      rw [hitem] at hholds
      rw [make, hholds]
      rfl

/-- A new store goes into the file of a generation that has none, unless a directory has the name
of its journal. -/
theorem create_eq (h : d.LiesAt t home) (hwf : t.WellFormed) (id : Nat) (store : Store) :
    d.create t id store =
      if (t.item? (home ++ [nameOf id])).isSome then
        .error (.store ("generation file already exists: " ++ (d.fileFor id).text))
      else if t.hasDirectory (home ++ [journalName id]) then
        .error (.store "failed to create schema: unable to open database file")
      else .ok (stored home t id store) := by
  unfold create
  rw [h.make_eq]
  by_cases hsome : (t.item? (home ++ [nameOf id])).isSome = true
  · simp only [if_pos hsome]
  · simp only [if_neg hsome]
    have hitem : t.item? (home ++ [nameOf id]) = none := by simpa using hsome
    have hspot : ∀ item, t.item? (home ++ [nameOf id]) = some item → item.isFile = true := by
      simp [hitem]
    have hedit : FileTree.Edit (home ++ [nameOf id]) t
        (t.set (home ++ [nameOf id]) (.file .empty)) := hwf.edit_set (by simp) hspot rfl
    have hmade := h.edit hedit
    have hdir := hedit.hasDirectory_eq (home ++ [journalName id])
    rw [journalOf_fileFor, hmade.delete_entry (isName_journal id), hdir]
    by_cases hjournal : t.hasDirectory (home ++ [journalName id]) = true
    · rw [hjournal, FileTree.hasDirectory_iff] at hdir
      simp only [if_pos hjournal, hmade.holds_entry (isName_journal id), hdir, Option.isSome_some,
        if_true]
    · have hwf' : (t.set (home ++ [nameOf id]) (.file .empty)).WellFormed :=
        hwf.set h.directory (isName_nameOf id) hspot rfl
      have hfree : (t.set (home ++ [nameOf id]) (.file .empty)).hasDirectory
          (home ++ [journalName id]) = false := hdir.trans (by simpa using hjournal)
      have hcleared := hmade.edit (hwf'.edit_remove (by simp) (hmade.isFile_of_item? hfree))
      have hgone := FileTree.item?_remove_of_prefix
        (t.set (home ++ [nameOf id]) (.file .empty)) (by simp)
        (List.prefix_refl (home ++ [journalName id]))
      have hkept := FileTree.item?_remove_of_not_prefix
        (t.set (home ++ [nameOf id]) (.file .empty)) (not_prefix_of_journal home id)
      have hwrite := hcleared.write_entry (isName_nameOf id) (.index store)
      rw [FileTree.hasDirectory, hkept, FileTree.item?_set_self _ (by simp),
        FileTree.set_remove_set _ (not_prefix_of_journal home id)] at hwrite
      simp only [if_neg hjournal, hcleared.holds_entry (isName_journal id), hgone,
        Option.isSome_none, Bool.false_eq_true, if_false]
      rw [fileFor, hwrite]
      rfl

theorem create_ok_iff (h : d.LiesAt t home) (hwf : t.WellFormed) {id : Nat} {store : Store}
    {t' : FileTree} :
    d.create t id store = .ok t' ↔ t.item? (home ++ [nameOf id]) = none ∧
      t.hasDirectory (home ++ [journalName id]) = false ∧ t' = stored home t id store := by
  rw [h.create_eq hwf]
  by_cases hsome : (t.item? (home ++ [nameOf id])).isSome = true
  · rw [if_pos hsome]
    refine ⟨(nomatch ·), fun ⟨hfree, _, _⟩ => ?_⟩
    rw [hfree] at hsome
    cases hsome
  · have hfree : t.item? (home ++ [nameOf id]) = none := by simpa using hsome
    rw [if_neg hsome]
    by_cases hdir : t.hasDirectory (home ++ [journalName id]) = true
    · rw [if_pos hdir]
      refine ⟨(nomatch ·), fun ⟨_, hjournal, _⟩ => ?_⟩
      rw [hdir] at hjournal
      cases hjournal
    · rw [if_neg hdir, Except.ok.injEq]
      exact ⟨fun hsame => ⟨hfree, by simpa using hdir, hsame.symm⟩, fun ⟨_, _, hsame⟩ => hsame.symm⟩

theorem leftover_eq (h : d.LiesAt t home) (id : Nat) :
    d.leftover t id = if (t.item? (home ++ [nameOf id])).isSome then t
      else t.set (home ++ [nameOf id]) (.file .empty) := by
  unfold leftover
  rw [h.make_eq]
  by_cases hsome : (t.item? (home ++ [nameOf id])).isSome = true
  · simp only [if_pos hsome]
  · simp only [if_neg hsome]

theorem edits_sweep (h : d.LiesAt t home) (hwf : t.WellFormed) (keep : Option Nat) :
    Edits home (fun name file => ∃ id, mayRemove id name file) t (d.sweep t keep) := by
  rw [sweep]
  split
  · exact .refl
  · rename_i ids _
    clear * - h hwf
    generalize ids.filter (fun id => some id ≠ keep) = swept
    induction swept generalizing t with
    | nil => exact .refl
    | cons id swept ih =>
        have hfirst : Edits home (fun name file => ∃ id, mayRemove id name file) t
            (removeStore t (d.fileFor id)) :=
          (h.edits_removeStore hwf id).mono fun _ _ hmay => ⟨id, hmay⟩
        obtain ⟨hwf', h'⟩ := hfirst.wellFormed hwf h
        rw [List.foldl_cons]
        exact hfirst.trans (ih h' hwf')

/-- The file that points to a generation. -/
def pointerTo (id : Nat) : FileItem := .file (toString id ++ "\n").toUTF8

/-- The pointer is drafted, then moved over the old one. -/
theorem writeCurrent_eq (h : d.LiesAt t home) (hwf : t.WellFormed) (id : Nat) :
    d.writeCurrent t id =
      if t.hasDirectory (home ++ [draftName]) then (t, .error .isDirectory)
      else
        let undrafted := (t.set (home ++ [draftName]) (pointerTo id)).remove (home ++ [draftName])
        if t.hasDirectory (home ++ [currentName]) then (undrafted, .error .isDirectory)
        else (undrafted.set (home ++ [currentName]) (pointerTo id), .ok ()) := by
  have hpointer : FileItem.file (toString id ++ "\n").toUTF8 = pointerTo id := rfl
  have hdraft : currentName ++ ".tmp" = draftName := rfl
  simp only [writeCurrent, h.makeDirectory_eq]
  rw [hpointer, hdraft, h.write_entry isName_draftName]
  by_cases hdir : t.hasDirectory (home ++ [draftName]) = true
  · simp [hdir]
  · have hne : home ++ [draftName] ≠ [] := by simp
    have hedit : FileTree.Edit (home ++ [draftName]) t
        (t.set (home ++ [draftName]) (pointerTo id)) :=
      hwf.edit_set hne (h.isFile_of_item? (by simpa using hdir)) rfl
    have hitem := t.item?_set_self hne (pointerTo id)
    have hmove := (h.edit hedit).move_entry isName_draftName isName_currentName
    have hdelete := (h.edit hedit).delete_entry isName_draftName
    rw [hitem, hedit.hasDirectory_eq] at hmove
    rw [FileTree.hasDirectory, hitem] at hdelete
    rw [if_neg hdir, if_neg hdir]
    by_cases hcurrent : t.hasDirectory (home ++ [currentName]) = true
    · simp only [if_pos hcurrent] at hmove ⊢
      simp only [hmove, hdelete]
      rfl
    · simp only [if_neg hcurrent] at hmove ⊢
      simp only [hmove]

theorem edits_writeCurrent (h : d.LiesAt t home) (hwf : t.WellFormed) (id : Nat) :
    Edits home mayPoint t (d.writeCurrent t id).1 := by
  rw [h.writeCurrent_eq hwf id]
  split
  · exact .refl
  · rename_i hdraft
    have hput : Edits home mayPoint t (t.set (home ++ [draftName]) (pointerTo id)) :=
      .write .refl isName_draftName (by simpa using hdraft) rfl ⟨Or.inr rfl, by simp [pointerTo]⟩
    have hdir : (t.set (home ++ [draftName]) (pointerTo id)).hasDirectory (home ++ [draftName])
        = false := by
      rw [FileTree.hasDirectory, FileTree.item?_set_self _ (by simp)]
      rfl
    have htaken := hput.remove hdir ⟨Or.inr rfl, by simp⟩
    split
    · exact htaken
    · rename_i hcurrent
      -- neither edit of the draft touches the pointer itself
      obtain ⟨hwf', h'⟩ := hput.wellFormed hwf h
      have hfirst : FileTree.Edit (home ++ [draftName]) t
          (t.set (home ++ [draftName]) (pointerTo id)) :=
        hwf.edit_set (by simp) (h.isFile_of_item? (by simpa using hdraft)) rfl
      have hsecond := hwf'.edit_remove (by simp) (h'.isFile_of_item? hdir)
      refine .write htaken isName_currentName ?_ rfl ⟨Or.inl rfl, by simp [pointerTo]⟩
      rw [hsecond.hasDirectory_eq, hfirst.hasDirectory_eq]
      simpa using hcurrent

/-- The pointer is replaced unless a directory is in the way. -/
theorem writeCurrent_ok_iff (h : d.LiesAt t home) (hwf : t.WellFormed) (id : Nat) :
    (d.writeCurrent t id).2 = .ok () ↔ t.hasDirectory (home ++ [draftName]) = false ∧
      t.hasDirectory (home ++ [currentName]) = false := by
  rw [h.writeCurrent_eq hwf id]
  split
  · simp_all
  · dsimp only
    split <;> simp_all

end LiesAt

end IndexDirectory

end SourceIndex
