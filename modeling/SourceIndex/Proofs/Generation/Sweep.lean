import Mathlib
import SourceIndex.Proofs.Generation.Number

/-! # Clearing away stale generations

The files of generations are found by whatever name spells a number, but removed under the proper
name of that number (`IndexDirectory.sweep`). So an item stays exactly if it is a directory or has
none of the names that the swept numbers stand for (`LiesAt.item?_sweep_iff`): what is kept is not
touched, nothing but files of generations and their journals goes away, but a stale file stays if
the number in its name is spelled in another way, as `gen-1.db` is. `LiesAt.sweep_clears_iff` says
when only the generation to keep is left, and which number the next generation gets
(`IndexDirectory.Counts`).
-/

set_option autoImplicit false

namespace SourceIndex

theorem readNumber?_lt {text : String} {n : Nat} (h : readNumber? text = some n) :
    n < UInt64.size := by
  simp only [readNumber?, Option.ite_none_right_eq_some] at h
  obtain ⟨-, hfits, hn⟩ := h
  rwa [← Option.some.inj hn]

namespace IndexDirectory

theorem idOfName?_lt {name : String} {id : Nat} (h : idOfName? name = some id) :
    id < UInt64.size := by
  simp only [idOfName?, Option.bind_eq_bind, Option.bind_eq_some_iff] at h
  obtain ⟨rest, -, digits, -, hid⟩ := h
  exact readNumber?_lt hid

theorem journalName_inj {id id' : Nat} : journalName id = journalName id' ↔ id = id' := by
  refine ⟨fun hname => nameOf_inj.mp ?_, congrArg journalName⟩
  simpa [journalName, ← String.toList_inj] using hname

-- from here on, names of files are not to be computed
attribute [local irreducible] nameOf journalName

variable {d : IndexDirectory} {t : FileTree} {home : List String}

/-! ## The numbers in a directory -/

/-- Every name that spells a number is listed with it. -/
theorem LiesAt.mem_ids_iff (h : d.LiesAt t home) (hwf : t.WellFormed) {ids : List Nat}
    (hids : d.ids t = .ok ids) {id : Nat} :
    id ∈ ids ↔ ∃ name, idOfName? name = some id ∧ (t.item? (home ++ [name])).isSome = true := by
  obtain ⟨listed, hlisted, hperm, -⟩ := h.ids_spec
  obtain rfl := Except.ok.inj (hids.symm.trans hlisted)
  rw [hperm.mem_iff, List.mem_filterMap]
  constructor
  · rintro ⟨name, hmem, hid⟩
    exact ⟨name, hid, hwf.mem_namesIn.mp hmem⟩
  · rintro ⟨name, hid, hsome⟩
    exact ⟨name, hwf.mem_namesIn.mpr hsome, hid⟩

/-- Which number the next generation gets: a larger one than all that are listed and than that in
use, if the pointer can be read and none of them is the last number that there is. -/
structure Counts (d : IndexDirectory) (t : FileTree) (ids : List Nat) : Prop where
  listed : d.ids t = .ok ids
  larger : ∀ id, d.nextId t = .ok id →
    (∀ k ∈ ids, k < id) ∧ ∀ k, d.readCurrent t = .ok (some k) → k < id
  given : (∃ id, d.nextId t = .ok id) ↔
    (∃ current, d.readCurrent t = .ok current) ∧
      ∀ k, k ∈ ids ∨ d.readCurrent t = .ok (some k) → k + 1 < UInt64.size

theorem LiesAt.counts (h : d.LiesAt t home) (hwf : t.WellFormed) : ∃ ids, d.Counts t ids := by
  obtain ⟨ids, hids, -⟩ := h.ids_spec
  have hlarger : ∀ id, d.nextId t = .ok id →
      (∀ k ∈ ids, k < id) ∧ ∀ k, d.readCurrent t = .ok (some k) → k < id := by
    intro id hid
    obtain ⟨-, ⟨current, hread, hcurrent⟩, hfiles⟩ := h.nextId_spec hwf hid
    refine ⟨fun k hk => ?_, fun k hk => hcurrent k (Except.ok.inj (hread.symm.trans hk))⟩
    obtain ⟨name, hname, hsome⟩ := (h.mem_ids_iff hwf hids).mp hk
    exact hfiles name k hname hsome
  refine ⟨ids, hids, hlarger, ?_, ?_⟩
  · rintro ⟨id, hid⟩
    obtain ⟨hfits, ⟨current, hread, -⟩, -⟩ := h.nextId_spec hwf hid
    obtain ⟨hfiles, hcurrent⟩ := hlarger id hid
    refine ⟨⟨current, hread⟩, fun k hk => ?_⟩
    have hlt := hk.elim (hfiles k) (hcurrent k)
    omega
  · rintro ⟨⟨current, hread⟩, hroom⟩
    refine h.nextId_isOk hwf ⟨fun k hk => hroom k (Or.inr hk), fun name k hname hsome => ?_⟩ hread
    exact hroom k (Or.inl ((h.mem_ids_iff hwf hids).mpr ⟨name, hname, hsome⟩))

/-! ## What stays -/

/-- The stores of any numbers are removed one after the other. -/
theorem LiesAt.item?_foldl_removeStore_iff (swept : List Nat) (h : d.LiesAt t home)
    (hwf : t.WellFormed) {names : List String} {item : FileItem} :
    (swept.foldl (fun t id => removeStore t (d.fileFor id)) t).item? names = some item ↔
      t.item? names = some item ∧
        (item = .directory ∨ ∀ id ∈ swept, names ∉ storeSpots home id) := by
  induction swept generalizing t with
  | nil => simp
  | cons id swept ih =>
      obtain ⟨hwf', h'⟩ := (h.edits_removeStore hwf id).wellFormed hwf h
      rw [List.foldl_cons, ih h' hwf', h.item?_removeStore_iff hwf, List.forall_mem_cons, and_assoc,
        ← or_and_left]

/-- What clearing away leaves: directories, and whatever has none of the names that the listed
numbers stand for, apart from the one to keep. -/
theorem LiesAt.item?_sweep_iff (h : d.LiesAt t home) (hwf : t.WellFormed) {ids : List Nat}
    (hids : d.ids t = .ok ids) {keep : Option Nat} {names : List String} {item : FileItem} :
    (d.sweep t keep).item? names = some item ↔
      t.item? names = some item ∧
        (item = .directory ∨ ∀ id ∈ ids, keep ≠ some id → names ∉ storeSpots home id) := by
  simp only [sweep, hids, h.item?_foldl_removeStore_iff _ hwf, List.mem_filter, decide_eq_true_eq,
    and_imp, ne_comm]

/-- A name that spells a number stands for no store but the one that has this number, and only if it
is the proper name. -/
theorem mem_storeSpots_of_idOfName? {name : String} {id k : Nat} (hname : idOfName? name = some id)
    (hk : k < UInt64.size) : home ++ [name] ∈ storeSpots home k ↔ k = id ∧ name = nameOf id := by
  rw [mem_storeSpots]
  constructor
  · rintro (rfl | rfl)
    · rw [idOfName?_nameOf hk] at hname
      exact ⟨Option.some.inj hname, congrArg nameOf (Option.some.inj hname)⟩
    · rw [idOfName?_journalName] at hname
      cases hname
  · rintro ⟨rfl, hproper⟩
    exact Or.inl hproper

/-- Whatever belongs to the generation to keep stays as it is: its file under any name and its
journal. -/
theorem LiesAt.item?_sweep_of_kept (h : d.LiesAt t home) (hwf : t.WellFormed) {id : Nat}
    {name : String} (hname : name = nameOf id ∨ name = journalName id ∨ idOfName? name = some id) :
    (d.sweep t (some id)).item? (home ++ [name]) = t.item? (home ++ [name]) := by
  obtain ⟨ids, hids, -⟩ := h.ids_spec
  have hstays : ∀ k ∈ ids, some id ≠ some k → home ++ [name] ∉ storeSpots home k := by
    intro k hk hne hspot
    obtain ⟨other, hother, -⟩ := (h.mem_ids_iff hwf hids).mp hk
    refine hne (congrArg some ?_)
    rcases hname with rfl | rfl | hname
    · exact (mem_storeSpots.mp hspot).elim nameOf_inj.mp fun hj => absurd hj (nameOf_ne_journal id k)
    · exact (mem_storeSpots.mp hspot).elim (fun hj => absurd hj.symm (nameOf_ne_journal k id))
        journalName_inj.mp
    · exact ((mem_storeSpots_of_idOfName? hname (idOfName?_lt hother)).mp hspot).1.symm
  refine Option.ext fun item => ?_
  rw [h.item?_sweep_iff hwf hids]
  exact and_iff_left (Or.inr hstays)

/-- A stale file stays exactly if its name is not the proper one of its number, or if it is a
directory. -/
theorem LiesAt.isSome_sweep_iff (h : d.LiesAt t home) (hwf : t.WellFormed) {keep : Option Nat}
    {name : String} {id : Nat} (hname : idOfName? name = some id) (hstale : keep ≠ some id) :
    ((d.sweep t keep).item? (home ++ [name])).isSome = true ↔
      (t.item? (home ++ [name])).isSome = true ∧
        ¬ (name = nameOf id ∧ t.hasDirectory (home ++ [name]) = false) := by
  obtain ⟨ids, hids, -⟩ := h.ids_spec
  have hspots : ∀ item, t.item? (home ++ [name]) = some item →
      ((∀ k ∈ ids, keep ≠ some k → home ++ [name] ∉ storeSpots home k) ↔ name ≠ nameOf id) := by
    intro item hitem
    have hlisted : id ∈ ids :=
      (h.mem_ids_iff hwf hids).mpr ⟨name, hname, Option.isSome_iff_exists.mpr ⟨item, hitem⟩⟩
    constructor
    · intro hnone hproper
      exact hnone id hlisted hstale (mem_storeSpots.mpr (Or.inl hproper))
    · intro hne k hk _ hspot
      obtain ⟨other, hother, -⟩ := (h.mem_ids_iff hwf hids).mp hk
      exact hne ((mem_storeSpots_of_idOfName? hname (idOfName?_lt hother)).mp hspot).2
  rw [Option.isSome_iff_exists, Option.isSome_iff_exists]
  constructor
  · rintro ⟨item, hitem⟩
    obtain ⟨hbefore, hstays⟩ := (h.item?_sweep_iff hwf hids).mp hitem
    refine ⟨⟨item, hbefore⟩, fun ⟨hproper, hdir⟩ => ?_⟩
    rcases hstays with rfl | hstays
    · rw [(FileTree.hasDirectory_iff _ _).mpr hbefore] at hdir
      cases hdir
    · exact (hspots item hbefore).mp hstays hproper
  · rintro ⟨⟨item, hitem⟩, himproper⟩
    refine ⟨item, (h.item?_sweep_iff hwf hids).mpr ⟨hitem, ?_⟩⟩
    by_cases hproper : name = nameOf id
    · have hdir : t.hasDirectory (home ++ [name]) = true := by simpa [hproper] using himproper
      rw [FileTree.hasDirectory_iff, hitem] at hdir
      exact Or.inl (Option.some.inj hdir)
    · exact Or.inr ((hspots item hitem).mpr hproper)

/-! ## Clearing away -/

/-- After clearing away, the only number listed is the one to keep exactly if every stale file had
the proper name of its number and was no directory. In any case what goes away is a file or a journal
of a listed number other than the one to keep, all else stays as it was, that which belongs to the
generation to keep in particular, and the next number is larger than all that are there. -/
theorem LiesAt.sweep_clears_iff (h : d.LiesAt t home) (hwf : t.WellFormed) (keep : Option Nat) :
    ∃ before after, d.Counts t before ∧ d.Counts (d.sweep t keep) after ∧
      ((∀ id ∈ after, keep = some id) ↔
        ∀ name id, idOfName? name = some id → keep ≠ some id →
          (t.item? (home ++ [name])).isSome = true →
            name = nameOf id ∧ t.hasDirectory (home ++ [name]) = false) ∧
      (∀ id name, keep = some id →
        name = nameOf id ∨ name = journalName id ∨ idOfName? name = some id →
          (d.sweep t keep).item? (home ++ [name]) = t.item? (home ++ [name])) ∧
      ∀ names item, (d.sweep t keep).item? names = some item ↔
        t.item? names = some item ∧ (item = .directory ∨ ∀ id ∈ before, keep ≠ some id →
          names ≠ home ++ [nameOf id] ∧ names ≠ home ++ [journalName id]) := by
  obtain ⟨hwf', h'⟩ := (h.edits_sweep hwf keep).wellFormed hwf h
  obtain ⟨before, hbefore⟩ := h.counts hwf
  obtain ⟨after, hafter⟩ := h'.counts hwf'
  refine ⟨before, after, hbefore, hafter, ⟨fun hall name id hname hstale hsome => ?_,
    fun hall id hid => ?_⟩, ?_, fun names item => ?_⟩
  · by_contra himproper
    refine hstale (hall id ((h'.mem_ids_iff hwf' hafter.listed).mpr ⟨name, hname, ?_⟩))
    exact (h.isSome_sweep_iff hwf hname hstale).mpr ⟨hsome, himproper⟩
  · obtain ⟨name, hname, hsome⟩ := (h'.mem_ids_iff hwf' hafter.listed).mp hid
    by_contra hstale
    obtain ⟨hthere, himproper⟩ := (h.isSome_sweep_iff hwf hname hstale).mp hsome
    exact himproper (hall name id hname hstale hthere)
  · rintro id name rfl hname
    exact h.item?_sweep_of_kept hwf hname
  · rw [h.item?_sweep_iff hwf hbefore.listed]
    simp only [storeSpots, List.mem_pair, not_or, ne_eq]

/-! ### A small directory -/

/-- A directory with the lock of builds and two generations, one of which has its number spelled
without zeros. -/
def smallMixed : FileTree :=
  ⟨[(["d"], .directory), (["d", "build.lock"], .file .empty), (["d", "gen-1.db"], .file .empty),
    (["d", "gen-000003.db"], .file .empty)]⟩

/-- The directory that it is about. -/
def smallPlace : IndexDirectory := ⟨⟨"/d"⟩⟩

theorem wellFormed_smallMixed : smallMixed.WellFormed := by
  constructor
  all_goals decide +kernel

theorem liesAt_smallMixed : smallPlace.LiesAt smallMixed ["d"] := by
  have hplain : ∀ e ∈ smallMixed.entries, ∀ target, e.2 ≠ .link target := by
    simp [smallMixed]
  refine ⟨by decide +kernel, by decide +kernel, fun name target hlink => ?_⟩
  exact hplain _ (FileTree.mem_of_item? (by simp) hlink) target rfl

/-- If the one without zeros is kept, the other one goes away. -/
theorem sweep_clears_smallMixed : smallMixed.WellFormed ∧ smallPlace.LiesAt smallMixed ["d"] ∧
    ∃ after, smallPlace.Counts (smallPlace.sweep smallMixed (some 1)) after ∧
      (∀ id ∈ after, some 1 = some id) ∧
      (smallPlace.sweep smallMixed (some 1)).item? ["d", "gen-1.db"] =
        smallMixed.item? ["d", "gen-1.db"] := by
  obtain ⟨before, after, -, hafter, hcleared, hkept, -⟩ :=
    liesAt_smallMixed.sweep_clears_iff wellFormed_smallMixed (some 1)
  refine ⟨wellFormed_smallMixed, liesAt_smallMixed, after, hafter, hcleared.mpr ?_,
    hkept 1 "gen-1.db" rfl (Or.inr (Or.inr (by decide +kernel)))⟩
  have hnames : ∀ name ∈ smallMixed.namesIn ["d"], ∀ id ∈ idOfName? name, some 1 ≠ some id →
      name = nameOf id ∧ smallMixed.hasDirectory ["d", name] = false := by decide +kernel
  intro name id hname hstale hsome
  exact hnames name (wellFormed_smallMixed.mem_namesIn.mpr hsome) id hname hstale

/-- If the other one is kept, the one without zeros is still listed. -/
theorem listed_smallMixed : smallMixed.WellFormed ∧ smallPlace.LiesAt smallMixed ["d"] ∧
    ∃ ids, smallPlace.ids (smallPlace.sweep smallMixed (some 3)) = .ok ids ∧ 1 ∈ ids ∧
      ¬ ∀ id ∈ ids, some 3 = some id := by
  have hwf := wellFormed_smallMixed
  have h := liesAt_smallMixed
  obtain ⟨hwf', h'⟩ := (h.edits_sweep hwf (some 3)).wellFormed hwf h
  obtain ⟨ids, hids, -⟩ := h'.ids_spec
  have hid : idOfName? "gen-1.db" = some 1 := by decide +kernel
  have hlisted : 1 ∈ ids := by
    refine (h'.mem_ids_iff hwf' hids).mpr ⟨"gen-1.db", hid, ?_⟩
    exact (h.isSome_sweep_iff hwf hid (by decide)).mpr ⟨by decide +kernel, by decide +kernel⟩
  exact ⟨hwf, h, ids, hids, hlisted, fun hall => nomatch hall 1 hlisted⟩

end IndexDirectory

end SourceIndex
