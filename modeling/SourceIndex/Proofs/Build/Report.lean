import Mathlib
import SourceIndex.Proofs.Build.Taken
import SourceIndex.Store.Statistics

/-! # What a report adds up to

The numbers of a build are taken at different places: how many files are cut anew and carried over,
how many earlier ones are gone, and what the finished generation holds. They belong to one division of
files (`BuildReport.AddsUp`): the new generation consists of the files that are carried over and of
those that are cut anew, and an earlier file is carried over, cut anew or removed, and only one of
these.
-/

set_option autoImplicit false

namespace SourceIndex

/-- The paths of records, each counted once however it is spelled. -/
def FileRecord.partSet (fs : List FileRecord) : Finset (List Part) :=
  Path.partSet (fs.map FileRecord.path)

namespace FileRecord

variable {fs gs : List FileRecord} {ps : List Part}

theorem mem_partSet : ps ∈ partSet fs ↔ ∃ f ∈ fs, f.path.parts = ps := by
  rw [partSet, Path.mem_partSet]
  simp

theorem partSet_append (fs gs : List FileRecord) : partSet (fs ++ gs) = partSet fs ∪ partSet gs := by
  rw [partSet, List.map_append, Path.partSet_append]
  rfl

theorem partSet_congr (h : fs.Perm gs) : partSet fs = partSet gs := by
  ext ps
  simp only [mem_partSet, h.mem_iff]

theorem card_partSet (h : (fs.map fun f => f.path.parts).Nodup) : (partSet fs).card = fs.length := by
  rw [partSet, Path.card_partSet (by rwa [List.map_map]), List.length_map]

end FileRecord

/-! ## Numbers that belong together -/

open FileRecord

/-- The numbers of a report add up, for a build that had the records `earlier` to start from, carried
over those of `kept`, cut anew those of `cut`, and left a store. Files are counted by their paths. -/
structure BuildReport.AddsUp (r : BuildReport) (earlier kept cut : List FileRecord)
    (store : Store) : Prop where
  files : store.files.Perm (kept ++ cut)
  distinct : (store.files.map fun f => f.path.parts).Nodup
  /-- What is carried over was recorded before, under the same path and with the same text. -/
  carried : ∀ f ∈ kept, ∃ e ∈ earlier, e.path = f.path ∧ e.contentHash = f.contentHash ∧
    e.degraded = f.degraded
  rebuilt : r.rebuilt = cut.length
  reused : r.reused = kept.length
  indexed : r.files = (partSet store.files).card
  sum : r.files = r.rebuilt + r.reused
  total : r.files = store.statistics.files
  removed : r.removed = (partSet earlier \ partSet store.files).card
  before : (partSet earlier).card = r.reused + r.removed + (partSet cut ∩ partSet earlier).card
  chunks : r.chunks = store.statistics.chunks
  embedded : r.embedded = store.statistics.embedded
  degraded : r.degraded = cut.countP fun f => f.degraded
  degraded_le : r.degraded ≤ r.rebuilt
  degraded_total : store.statistics.degraded = r.degraded + kept.countP fun f => f.degraded

/-- Where there was nothing before, nothing is carried over or removed. -/
theorem BuildReport.AddsUp.of_nil {r : BuildReport} {kept cut : List FileRecord} {store : Store}
    (h : r.AddsUp [] kept cut store) : r.reused = 0 ∧ r.removed = 0 := by
  have hbefore := h.before
  have hnone : (partSet []).card = 0 := rfl
  omega

/-- What was there before is among the old things that stay, or not among those that are there now, or
among the new ones. -/
theorem Finset.card_eq_of_division {α : Type} [DecidableEq α] {before kept cut : Finset α}
    (hkept : kept ⊆ before) (hapart : Disjoint kept cut) :
    before.card = kept.card + (before \ (kept ∪ cut)).card + (cut ∩ before).card := by
  have hstays : (before ∩ (kept ∪ cut)).card = kept.card + (cut ∩ before).card := by
    have hdisjoint : Disjoint kept (cut ∩ before) :=
      Finset.disjoint_of_subset_right Finset.inter_subset_left hapart
    rw [Finset.inter_union_distrib_left, Finset.inter_eq_right.mpr hkept, Finset.inter_comm before,
      Finset.card_union_of_disjoint hdisjoint]
  have hsplit := Finset.card_sdiff_add_card_inter before (kept ∪ cut)
  omega

/-- Records that stay, with new ones beside them, leave so many of the earlier paths: those that stay,
those that are gone, and those that have got a new record. -/
theorem FileRecord.card_partSet_eq {earlier kept cut files : List FileRecord}
    (hfiles : files.Perm (kept ++ cut)) (hdistinct : (files.map fun f => f.path.parts).Nodup)
    (hkept : ∀ f ∈ kept, ∃ e ∈ earlier, e.path = f.path) :
    (partSet earlier).card =
      kept.length + (partSet earlier \ partSet files).card + (partSet cut ∩ partSet earlier).card := by
  have hparts : ((kept ++ cut).map fun f => f.path.parts).Nodup :=
    (hfiles.map _).nodup_iff.mp hdistinct
  obtain ⟨hnodup, -, hapart⟩ := List.nodup_append.mp (List.map_append ▸ hparts)
  have hbefore : partSet kept ⊆ partSet earlier := by
    intro ps hps
    obtain ⟨f, hf, rfl⟩ := mem_partSet.mp hps
    obtain ⟨e, he, hpath⟩ := hkept f hf
    exact mem_partSet.mpr ⟨e, he, by rw [hpath]⟩
  have hdisjoint : Disjoint (partSet kept) (partSet cut) := by
    refine Finset.disjoint_left.mpr fun ps hps hps' => ?_
    obtain ⟨f, hf, rfl⟩ := mem_partSet.mp hps
    obtain ⟨g, hg, hsame⟩ := mem_partSet.mp hps'
    exact hapart _ (List.mem_map_of_mem hf) _ (List.mem_map_of_mem hg) hsame.symm
  rw [partSet_congr hfiles, partSet_append, ← card_partSet hnodup]
  exact Finset.card_eq_of_division hbefore hdisjoint

/-! ## What a build counts -/

namespace BuildBase

/-- The records that a build starts from, as they are stored. -/
def filesOf (base : Option BuildBase) : List FileRecord := (base.map fun b => b.store.files).getD []

theorem sorted_recordsOf (base : Option BuildBase) : (recordsOf base).Sorted := by
  cases base with
  | none => exact PathMap.sorted_empty
  | some b => exact PathMap.sorted_ofList _

/-- They are found under their own paths. -/
theorem partSet_keys_recordsOf (base : Option BuildBase) :
    Path.partSet (recordsOf base).keys = partSet (filesOf base) := by
  cases base with
  | none => rfl
  | some b =>
    ext ps
    rw [Path.mem_partSet, FileRecord.mem_partSet]
    calc (∃ k ∈ b.records.keys, k.parts = ps)
      _ ↔ ∃ e ∈ b.store.orderedFiles.map fun f : FileRecord => (f.path, f), e.1.parts = ps :=
        PathMap.exists_parts_ofList
      _ ↔ ∃ f ∈ b.store.files, f.path.parts = ps := by simp [mem_orderedFiles]

end BuildBase

namespace Prepared

variable {x : BuildContext} {o : BuildOptions} {base : Option BuildBase} (s : Sorting)

theorem rebuilt_ofSorting : (ofSorting x o base s).rebuilt = (x.newCuts o base s).length := by
  cases base <;> rfl

theorem reused_ofSorting : (ofSorting x o base s).reused = (x.carriedCuts o base s).length := by
  cases base <;> rfl

theorem incremental_ofSorting : (ofSorting x o base s).incremental = base.isSome := by
  cases base <;> rfl

theorem degraded_ofSorting : (ofSorting x o base s).degraded =
    ((x.newCuts o base s).map CutFile.record).countP fun f => f.degraded := by
  rw [List.countP_map]
  cases base <;> rfl

/-- The files of a build are those that it carries over and those that it cuts anew. -/
theorem perm_files_ofSorting : (ofSorting x o base s).files.Perm
    ((x.carriedCuts o base s).map CutFile.record ++ (x.newCuts o base s).map CutFile.record) := by
  rw [files_ofSorting, ← List.map_append]
  exact List.mergeSort_perm _ _

/-- Removed are the earlier paths that the new generation does not have. -/
theorem removed_ofSorting : (ofSorting x o base s).removed =
    (partSet (BuildBase.filesOf base) \ partSet (ofSorting x o base s).files).card := by
  have hremoved : (ofSorting x o base s).removed = (BuildBase.recordsOf base).keys.countP fun p =>
      !(PathSet.ofPaths ((ofSorting x o base s).files.map FileRecord.path)).contains p := by
    cases base <;> rfl
  have hgone : Path.partSet ((BuildBase.recordsOf base).keys.filter fun p =>
      !(PathSet.ofPaths ((ofSorting x o base s).files.map FileRecord.path)).contains p) =
      partSet (BuildBase.filesOf base) \ partSet (ofSorting x o base s).files := by
    ext ps
    rw [← BuildBase.partSet_keys_recordsOf, Finset.mem_sdiff, Path.mem_partSet, Path.mem_partSet,
      FileRecord.mem_partSet]
    simp only [List.mem_filter, Bool.not_eq_true', ← Bool.not_eq_true,
      PathSet.contains_ofPaths_iff, List.mem_map, exists_exists_and_eq_and]
    constructor
    · rintro ⟨p, ⟨hp, hnot⟩, rfl⟩
      exact ⟨⟨p, hp, rfl⟩, hnot⟩
    · rintro ⟨⟨p, hp, rfl⟩, hnot⟩
      exact ⟨p, ⟨hp, hnot⟩, rfl⟩
  have hnodup := (BuildBase.sorted_recordsOf base).nodup_parts
  rw [hremoved, ← hgone, Path.card_partSet (hnodup.sublist (List.filter_sublist.map _)),
    List.countP_eq_length_filter]

end Prepared

namespace BuildContext

variable {x : BuildContext} {t : FileTree} {o : BuildOptions} {base : Option BuildBase}
  {plan : ReadPlan}

/-- What is carried over was recorded before, and is recorded again but for its size and its time. -/
theorem of_mem_carriedCuts (h : plan.Apart) {c : CutFile}
    (hc : c ∈ x.carriedCuts o base (x.sorting t o base plan)) :
    ∃ e ∈ BuildBase.filesOf base,
      c.record = { e with modified := c.record.modified, size := c.record.size } := by
  cases base with
  | none => cases hc
  | some b =>
    rcases List.mem_append.mp ((perm_carriedCuts h).mem_iff.mp hc) with hc | hc
    · obtain ⟨p, -, hkept⟩ := List.mem_filterMap.mp hc
      exact ⟨c.record, (mem_of_kept hkept).1, rfl⟩
    · obtain ⟨p, -, hretained⟩ := List.mem_filterMap.mp hc
      obtain ⟨record, hrecord, rfl⟩ := Option.map_eq_some_iff.mp hretained
      obtain ⟨e, he, hrecord⟩ := Sorting.of_retained? hrecord
      exact ⟨e, (BuildBase.mem_of_get?_records he).1, hrecord⟩

/-- The numbers of a build add up, if its paths are told apart. -/
theorem addsUp_ofSorting (h : plan.Apart) {p q : Prepared}
    (hp : p = Prepared.ofSorting x o base (x.sorting t o base plan))
    (hdistinct : (p.files.map fun f => f.path.parts).Nodup) (hq : q = { p with chunks := q.chunks })
    (facts : BuildFacts) :
    (BuildReport.ofPrepared q facts).AddsUp (BuildBase.filesOf base)
      ((x.carriedCuts o base (x.sorting t o base plan)).map CutFile.record)
      ((x.newCuts o base (x.sorting t o base plan)).map CutFile.record)
      { files := q.files, chunks := q.chunks, facts := some facts } := by
  generalize hs : x.sorting t o base plan = s at *
  have hfiles : p.files.Perm ((x.carriedCuts o base s).map CutFile.record ++
      (x.newCuts o base s).map CutFile.record) := hp ▸ Prepared.perm_files_ofSorting s
  have hcarried : ∀ f ∈ (x.carriedCuts o base s).map CutFile.record,
      ∃ e ∈ BuildBase.filesOf base, f = { e with modified := f.modified, size := f.size } := by
    intro f hf
    obtain ⟨c, hc, rfl⟩ := List.mem_map.mp hf
    exact of_mem_carriedCuts h (hs ▸ hc)
  have hrebuilt : p.rebuilt = ((x.newCuts o base s).map CutFile.record).length := by
    rw [hp, Prepared.rebuilt_ofSorting, List.length_map]
  have hreused : p.reused = ((x.carriedCuts o base s).map CutFile.record).length := by
    rw [hp, Prepared.reused_ofSorting, List.length_map]
  have hdegraded : p.degraded =
      ((x.newCuts o base s).map CutFile.record).countP fun f => f.degraded := by
    rw [hp, Prepared.degraded_ofSorting]
  have hremoved : p.removed = (partSet (BuildBase.filesOf base) \ partSet p.files).card := by
    rw [hp, Prepared.removed_ofSorting]
  -- from here on, only the two lists and their numbers matter
  generalize (x.carriedCuts o base s).map CutFile.record = kept at *
  generalize (x.newCuts o base s).map CutFile.record = cut at *
  have hlength := hfiles.length_eq
  rw [List.length_append] at hlength
  have hcarried' : ∀ f ∈ kept, ∃ e ∈ BuildBase.filesOf base, e.path = f.path := by
    intro f hf
    obtain ⟨e, he, hrecord⟩ := hcarried f hf
    exact ⟨e, he, by rw [hrecord]⟩
  rw [hq]
  constructor
  case files => exact hfiles
  case distinct => exact hdistinct
  case carried =>
    intro f hf
    obtain ⟨e, he, hrecord⟩ := hcarried f hf
    exact ⟨e, he, by rw [hrecord], by rw [hrecord], by rw [hrecord]⟩
  case rebuilt => exact hrebuilt
  case reused => exact hreused
  case indexed => exact (card_partSet hdistinct).symm
  case sum =>
    show p.files.length = p.rebuilt + p.reused
    omega
  case total => rfl
  case removed => exact hremoved
  case before =>
    show (partSet (BuildBase.filesOf base)).card =
      p.reused + p.removed + (partSet cut ∩ partSet (BuildBase.filesOf base)).card
    rw [hreused, hremoved]
    exact FileRecord.card_partSet_eq hfiles hdistinct hcarried'
  case chunks => rfl
  case embedded => rfl
  case degraded => exact hdegraded
  case degraded_le =>
    show p.degraded ≤ p.rebuilt
    rw [hdegraded, hrebuilt]
    exact List.countP_le_length
  case degraded_total =>
    show p.files.countP (fun f => f.degraded) = p.degraded + kept.countP fun f => f.degraded
    rw [hdegraded, hfiles.countP_eq, List.countP_append, Nat.add_comm]

end BuildContext

end SourceIndex
