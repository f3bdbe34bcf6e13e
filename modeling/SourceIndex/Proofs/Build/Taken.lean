import Mathlib
import SourceIndex.Proofs.Build.Prepared
import SourceIndex.Proofs.Build.Spelling

/-! # What an incremental build takes over

The contents of a store are keyed if no two records have paths with the same parts and every chunk
belongs to a record (`Keyed`), however the paths are spelled. A build that starts from keyed contents
makes keyed ones (`BuildContext.keyed_ofSorting`): a path that is carried over unread keeps its record,
and what becomes of a path that is read is told by its reading alone (`BuildContext.taken`).

Chunks are looked up under the spelling of the path that is read. Where that is not the spelling of
the record, there are none (`Keyed.chunksOf_eq_nil`).
-/

set_option autoImplicit false

namespace SourceIndex

/-! ## Keyed contents -/

/-- No two records have paths with the same parts, and every chunk belongs to a record. -/
structure Keyed (files : List FileRecord) (chunks : List Chunk) : Prop where
  nodup : (files.map fun f => f.path.parts).Nodup
  recorded : ∀ c ∈ chunks, ∃ f ∈ files, f.path = c.path

namespace Keyed

variable {files files' : List FileRecord} {chunks chunks' : List Chunk} {s : Store}

theorem eq_of_parts (h : Keyed files chunks) {f g : FileRecord} (hf : f ∈ files) (hg : g ∈ files)
    (hparts : f.path.parts = g.path.parts) : f = g :=
  List.inj_on_of_nodup_map h.nodup hf hg hparts

theorem nodup_paths (h : Keyed files chunks) : (files.map FileRecord.path).Nodup := by
  refine List.Nodup.of_map Path.parts ?_
  rw [List.map_map]
  exact h.nodup

theorem mem_chunksOf {p : Path} {c : Chunk} : c ∈ s.chunksOf p ↔ c ∈ s.chunks ∧ c.path = p := by
  rw [Store.chunksOf, List.mem_mergeSort, List.mem_filter, decide_eq_true_iff]

/-- Under another spelling of its path a file has no chunks. -/
theorem chunksOf_eq_nil (h : Keyed s.files s.chunks) {f : FileRecord} (hf : f ∈ s.files) {p : Path}
    (hparts : f.path.parts = p.parts) (hne : f.path ≠ p) : s.chunksOf p = [] := by
  rw [List.eq_nil_iff_forall_not_mem]
  intro c hc
  obtain ⟨hc, hpath⟩ := mem_chunksOf.mp hc
  obtain ⟨g, hg, hgc⟩ := h.recorded c hc
  have hgp := hgc.trans hpath
  obtain rfl := h.eq_of_parts hf hg (by rw [hparts, hgp])
  exact hne hgp

/-- Vectors do not matter. -/
theorem of_map_bare (h : Keyed files chunks)
    (hbare : chunks'.map Chunk.bare = chunks.map Chunk.bare) : Keyed files chunks' where
  nodup := h.nodup
  recorded := Chunk.recorded_of_map_bare h.recorded hbare

end Keyed

theorem Fresh.keyed {parse : Chunk.Parse} {texts : Set String} {limits : ChunkLimits}
    {files : List FileRecord} {chunks : List Chunk} (h : Fresh parse texts limits files chunks) :
    Keyed files chunks where
  nodup := by
    refine List.Nodup.map_on (fun f hf g hg hparts => ?_) (List.Nodup.of_map _ h.nodup)
    exact List.inj_on_of_nodup_map h.nodup hf hg
      ((h.normal f hf).eq_of_parts (h.normal g hg) hparts)
  recorded := h.recorded

/-- Files with different parts, each with its own chunks. -/
structure CutFile.Distinct (cuts : List CutFile) : Prop where
  nodup : (cuts.map fun c => c.record.path.parts).Nodup
  own : ∀ c ∈ cuts, ∀ d ∈ c.chunks, d.path = c.record.path

/-- Contents put together from such files are keyed. -/
theorem CutFile.Distinct.keyed {cuts : List CutFile} (h : CutFile.Distinct cuts)
    {files : List FileRecord} (hfiles : files.Perm (cuts.map CutFile.record)) :
    Keyed files (cuts.flatMap CutFile.chunks) where
  nodup := by
    rw [(hfiles.map fun f => f.path.parts).nodup_iff, List.map_map]
    exact h.nodup
  recorded d hd := by
    obtain ⟨c, hc, hd⟩ := List.mem_flatMap.mp hd
    exact ⟨c.record, hfiles.mem_iff.mpr (List.mem_map_of_mem hc), (h.own c hc d hd).symm⟩

/-- Files that are made from paths with different parts, and keep the parts, have different parts. -/
theorem CutFile.nodup_filterMap {paths : List Path} {f : Path → Option CutFile}
    (hpaths : (paths.map Path.parts).Nodup)
    (hparts : ∀ p c, f p = some c → c.record.path.parts = p.parts) :
    ((paths.filterMap f).map fun c => c.record.path.parts).Nodup := by
  rw [List.Nodup, List.pairwise_map, List.pairwise_filterMap]
  refine (List.pairwise_map.mp hpaths).imp fun {p q} hne c hc d hd => ?_
  rwa [hparts p c hc, hparts q d hd]

namespace BuildBase

variable {b : BuildBase} {p : Path}

/-- What is found under a path was recorded, under its parts. -/
theorem mem_of_get?_records {f : FileRecord} (h : b.records.get? p = some f) :
    f ∈ b.store.files ∧ f.path.parts = p.parts := by
  obtain ⟨k, hk, hparts⟩ := PathMap.exists_mem_of_get? h
  obtain ⟨g, hg, hgk⟩ := List.mem_map.mp (PathMap.mem_ofList hk)
  cases hgk
  exact ⟨(mem_orderedFiles b.store f).mp hg, hparts⟩

/-- If the records are told apart by their parts, each is found under them. -/
theorem get?_records_of_keyed (hb : Keyed b.store.files b.store.chunks) (f : FileRecord) :
    b.records.get? p = some f ↔ f ∈ b.store.files ∧ f.path.parts = p.parts := by
  have hperm : (b.store.orderedFiles.map fun f => f.path.parts).Perm
      (b.store.files.map fun f => f.path.parts) :=
    (List.mergeSort_perm _ _).map _
  rw [records, PathMap.get?_ofList_iff_parts]
  · simp only [List.mem_map, mem_orderedFiles, Prod.mk.injEq]
    constructor
    · rintro ⟨k, ⟨g, hg, rfl, rfl⟩, hparts⟩
      exact ⟨hg, hparts⟩
    · rintro ⟨hf, hparts⟩
      exact ⟨f.path, ⟨f, hf, rfl, rfl⟩, hparts⟩
  · rw [List.map_map]
    exact hperm.nodup_iff.mpr hb.nodup

end BuildBase

/-! ## What becomes of a path -/

namespace BuildContext

variable (x : BuildContext) (t : FileTree) (o : BuildOptions) (b : BuildBase)

/-- An earlier file with the chunks that are found under a path. -/
def keep (path : Path) (record : FileRecord) : CutFile where
  record := record
  chunks :=
    let chunks := b.store.chunksOf path
    if x.keepsVectors b (x.profileFor o (some b) []).2 then chunks
    else chunks.map fun c => { c with embedding := none }

/-- What becomes of a path that is carried over unread. -/
def kept (path : Path) : Option CutFile := (b.records.get? path).map (x.keep o b path)

/-- What becomes of a path that is read: it is cut anew, or what was recorded is retained. -/
def taken (path : Path) : Option CutFile :=
  let r := x.readingOf t o (some b) path
  ((Sorting.changed? b.records r).map
      (CutFile.ofFile x.parse b.facts.profile.params.toChunkLimits)).or
    ((Sorting.retained? b.records r).map (x.keep o b path))

/-- What a plan leads to. -/
def planned (plan : ReadPlan) : List CutFile :=
  plan.carry.keys.filterMap (x.kept o b) ++ plan.read.filterMap (x.taken t o b)

variable {x t o b} {plan : ReadPlan} {path : Path} {c : CutFile}

theorem map_bare_keep (path : Path) (record : FileRecord) :
    (x.keep o b path record).chunks.map Chunk.bare = (b.store.chunksOf path).map Chunk.bare := by
  rw [keep]
  dsimp only
  split
  · rfl
  · rw [List.map_map]
    rfl

/-- Its chunks stand under the path. -/
theorem exists_of_mem_keep {record : FileRecord} {d : Chunk}
    (hd : d ∈ (x.keep o b path record).chunks) : ∃ e ∈ b.store.chunks, e.path = path ∧ d.path = path := by
  have hmem := List.mem_map_of_mem (f := Chunk.bare) hd
  rw [map_bare_keep] at hmem
  obtain ⟨e, he, hed⟩ := List.mem_map.mp hmem
  obtain ⟨he, hpath⟩ := Keyed.mem_chunksOf.mp he
  refine ⟨e, he, hpath, ?_⟩
  rw [← Chunk.bare_path, ← hed, Chunk.bare_path, hpath]

/-- If there are any, the file is recorded under that path. -/
theorem own_keep (hb : Keyed b.store.files b.store.chunks) {f record : FileRecord}
    (hf : f ∈ b.store.files) (hparts : f.path.parts = path.parts) (hrecord : record.path = f.path) :
    ∀ d ∈ (x.keep o b path record).chunks, d.path = record.path := by
  intro d hd
  obtain ⟨e, he, hepath, hdpath⟩ := exists_of_mem_keep hd
  obtain ⟨g, hg, hgpath⟩ := hb.recorded e he
  have hgp : g.path = path := hgpath.trans hepath
  obtain rfl := hb.eq_of_parts hg hf (by rw [hgp, hparts])
  rw [hdpath, hrecord, hgp]

theorem mem_of_kept (h : x.kept o b path = some c) :
    c.record ∈ b.store.files ∧ c.record.path.parts = path.parts := by
  obtain ⟨f, hf, rfl⟩ := Option.map_eq_some_iff.mp h
  exact BuildBase.mem_of_get?_records hf

theorem of_kept (hb : Keyed b.store.files b.store.chunks) (h : x.kept o b path = some c) :
    c.record ∈ b.store.files ∧ c.record.path.parts = path.parts ∧
      ∀ d ∈ c.chunks, d.path = c.record.path := by
  obtain ⟨hmem, hparts⟩ := mem_of_kept h
  obtain ⟨f, -, rfl⟩ := Option.map_eq_some_iff.mp h
  exact ⟨hmem, hparts, own_keep hb hmem hparts rfl⟩

/-- A file that is retained was recorded under the same path with the same digest. -/
theorem of_retained {r : Reading} {record : FileRecord}
    (h : Sorting.retained? b.records r = some record) :
    ∃ f ∈ b.store.files, f.path.parts = r.path.parts ∧ record.path = f.path ∧
      record.contentHash = f.contentHash := by
  obtain ⟨f, hf, hrecord⟩ := Sorting.of_retained? h
  obtain ⟨hmem, hparts⟩ := BuildBase.mem_of_get?_records hf
  exact ⟨f, hmem, hparts, by rw [hrecord], by rw [hrecord]⟩

/-- A path is taken in one of two ways. -/
theorem taken_eq_some_iff :
    x.taken t o b path = some c ↔
      (∃ file, Sorting.changed? b.records (x.readingOf t o (some b) path) = some file ∧
          c = CutFile.ofFile x.parse b.facts.profile.params.toChunkLimits file) ∨
        ∃ record, Sorting.retained? b.records (x.readingOf t o (some b) path) = some record ∧
          c = x.keep o b path record := by
  rw [taken]
  cases hchanged : Sorting.changed? b.records (x.readingOf t o (some b) path) with
  | none => simp [eq_comm]
  | some file =>
      rw [Sorting.retained?_of_changed hchanged]
      simp [eq_comm]

/-- A file that is cut anew is recorded as it was read. -/
theorem path_of_changed {file : SourceFile}
    (h : Sorting.changed? b.records (x.readingOf t o (some b) path) = some file) :
    file.path = path := by
  have hread := ((Sorting.changed?_eq_some_iff _ _).mp h).1
  rw [Listing.eq_ofPath_of_readSource hread]
  rfl

theorem parts_of_taken (h : x.taken t o b path = some c) : c.record.path.parts = path.parts := by
  rcases taken_eq_some_iff.mp h with ⟨file, hchanged, rfl⟩ | ⟨record, hretained, rfl⟩
  · obtain rfl := path_of_changed hchanged
    rfl
  · obtain ⟨f, -, hparts, hpath, -⟩ := of_retained hretained
    exact (congrArg Path.parts hpath).trans hparts

theorem of_taken (hb : Keyed b.store.files b.store.chunks) (h : x.taken t o b path = some c) :
    c.record.path.parts = path.parts ∧ ∀ d ∈ c.chunks, d.path = c.record.path := by
  refine ⟨parts_of_taken h, ?_⟩
  rcases taken_eq_some_iff.mp h with ⟨file, hchanged, rfl⟩ | ⟨record, hretained, rfl⟩
  · obtain rfl := path_of_changed hchanged
    exact fun d hd => (Chunk.emitted_ofFile x.parse file _ d hd).1
  · obtain ⟨f, hf, hparts, hpath, -⟩ := of_retained hretained
    exact own_keep hb hf hparts hpath

/-! ## What a plan leads to -/

theorem perm_filterMap_or {α β : Type} (f g : α → Option β) {l : List α}
    (h : ∀ a ∈ l, f a = none ∨ g a = none) :
    (l.filterMap g ++ l.filterMap f).Perm (l.filterMap fun a => (f a).or (g a)) := by
  induction l with
  | nil => exact List.Perm.refl _
  | cons a l ih =>
      have ih := ih fun e he => h e (List.mem_cons_of_mem a he)
      cases hf : f a with
      | none =>
          cases hg : g a with
          | none => simpa [List.filterMap_cons, hf, hg] using ih
          | some c => simpa [List.filterMap_cons, hf, hg] using ih
      | some c =>
          have hg : g a = none := (h a List.mem_cons_self).resolve_left (by simp [hf])
          simpa [List.filterMap_cons, hf, hg] using List.perm_middle.trans (ih.cons c)

/-- Cut anew is what was read and has changed. -/
theorem newCuts_eq :
    x.newCuts o (some b) (x.sorting t o (some b) plan) = plan.read.filterMap fun p =>
      (Sorting.changed? b.records (x.readingOf t o (some b) p)).map
        (CutFile.ofFile x.parse b.facts.profile.params.toChunkLimits) := by
  have hchanged : (x.sorting t o (some b) plan).changed =
      (plan.read.map (x.readingOf t o (some b))).filterMap (Sorting.changed? b.records) :=
    Sorting.changed_ofReadings _ _ _
  rw [newCuts, hchanged, List.filterMap_map, List.map_filterMap]
  rfl

section Apart

variable (h : plan.Apart)
include h

theorem perm_carriedCuts :
    (x.carriedCuts o (some b) (x.sorting t o (some b) plan)).Perm
      (plan.carry.keys.filterMap (x.kept o b) ++ plan.read.filterMap fun p =>
        (Sorting.retained? b.records (x.readingOf t o (some b) p)).map (x.keep o b p)) := by
  have hcarry : ∀ p, CutFile.carry b
      (x.keepsVectors b (x.profileFor o (some b) (x.sorting t o (some b) plan).changed).2)
      (BuildBase.recordsOf (some b)) (x.sorting t o (some b) plan).records p =
        (((x.sorting t o (some b) plan).records.get? p).or (b.records.get? p)).map
          (x.keep o b p) := fun _ => rfl
  have hkeys : (x.sorting t o (some b) plan).carried.keys.Perm (plan.carry.keys ++
      plan.read.filter fun p => Sorting.retains b.records (x.readingOf t o (some b) p)) :=
    h.perm_carried x t o (some b)
  refine (hkeys.filterMap _).trans (List.Perm.of_eq ?_)
  rw [List.filterMap_append, List.filterMap_filter]
  congr 1
  · refine List.filterMap_congr fun p hp => ?_
    rw [hcarry, h.records_of_carry x t o (some b) hp]
    rfl
  · refine List.filterMap_congr fun p hp => ?_
    have hrecords : (x.sorting t o (some b) plan).records.get? p =
        Sorting.renewed? b.records (x.readingOf t o (some b) p) :=
      h.records_of_read x t o (some b) hp
    rw [hcarry, hrecords, Sorting.retained?_eq]
    cases Sorting.retains b.records (x.readingOf t o (some b) p) <;> rfl

/-- The files of a new generation are those that its plan leads to. -/
theorem perm_cuts :
    (x.cuts o (some b) (x.sorting t o (some b) plan)).Perm (x.planned t o b plan) := by
  rw [cuts, newCuts_eq]
  refine ((perm_carriedCuts h).append_right _).trans ?_
  rw [List.append_assoc, planned]
  refine List.Perm.append_left _ (perm_filterMap_or _ _ fun p _ => ?_)
  cases hchanged : Sorting.changed? b.records (x.readingOf t o (some b) p) with
  | none => exact .inl rfl
  | some file => exact .inr (by rw [Sorting.retained?_of_changed hchanged, Option.map_none])

theorem perm_files : (Prepared.ofSorting x o (some b) (x.sorting t o (some b) plan)).files.Perm
    ((x.planned t o b plan).map CutFile.record) := by
  rw [Prepared.files_ofSorting]
  exact (List.mergeSort_perm _ _).trans ((perm_cuts h).map _)

theorem perm_chunks : (Prepared.ofSorting x o (some b) (x.sorting t o (some b) plan)).chunks.Perm
    ((x.planned t o b plan).flatMap CutFile.chunks) := by
  rw [Prepared.chunks_ofSorting]
  exact (perm_cuts h).flatMap_right _

/-- The files that a plan leads to have different parts. -/
theorem nodup_planned :
    ((x.planned t o b plan).map fun c => c.record.path.parts).Nodup := by
  rw [planned, List.map_append, List.nodup_append]
  refine ⟨CutFile.nodup_filterMap h.carry.nodup_parts fun p c hc => (mem_of_kept hc).2,
    CutFile.nodup_filterMap h.read fun p c hc => parts_of_taken hc, ?_⟩
  -- what is read has other parts than what is carried over
  intro ps hps ps' hps' hsame
  obtain ⟨c, hc, rfl⟩ := List.mem_map.mp hps
  obtain ⟨d, hd, rfl⟩ := List.mem_map.mp hps'
  obtain ⟨k, hk, hkept⟩ := List.mem_filterMap.mp hc
  obtain ⟨q, hq, htaken⟩ := List.mem_filterMap.mp hd
  rw [(mem_of_kept hkept).2, parts_of_taken htaken] at hsame
  exact h.disjoint q hq k hk hsame.symm

/-- Every file that a plan leads to has its own parts, and every chunk its own file. -/
theorem distinct_planned (hb : Keyed b.store.files b.store.chunks) :
    CutFile.Distinct (x.planned t o b plan) where
  nodup := nodup_planned h
  own := by
    intro c hc
    rcases List.mem_append.mp hc with hc | hc
    · obtain ⟨k, -, hkept⟩ := List.mem_filterMap.mp hc
      exact (of_kept hb hkept).2.2
    · obtain ⟨q, -, htaken⟩ := List.mem_filterMap.mp hc
      exact (of_taken hb htaken).2

theorem keyed_ofSorting (hb : Keyed b.store.files b.store.chunks) :
    Keyed (Prepared.ofSorting x o (some b) (x.sorting t o (some b) plan)).files
      (Prepared.ofSorting x o (some b) (x.sorting t o (some b) plan)).chunks := by
  have hkeyed := (distinct_planned h hb).keyed (perm_files (x := x) (t := t) (o := o) h)
  exact ⟨hkeyed.nodup, fun c hc => hkeyed.recorded c ((perm_chunks h).mem_iff.mp hc)⟩

end Apart

/-- Every file that a plan leads to has the parts of a path that is carried over or read, and its own
path was recorded, or read just now. -/
theorem of_mem_planned (hc : c ∈ x.planned t o b plan) :
    (∃ q ∈ plan.carry.keys ++ plan.read, c.record.path.parts = q.parts) ∧
      ((∃ e ∈ b.store.files, e.path = c.record.path) ∨ c.record.path ∈ plan.read ∧
        ∃ file, Listing.readSource t x.root c.record.path (x.walk o (some b)) = .ok (some file)) := by
  rcases List.mem_append.mp hc with hc | hc
  · obtain ⟨k, hk, hkept⟩ := List.mem_filterMap.mp hc
    obtain ⟨hmem, hparts⟩ := mem_of_kept hkept
    exact ⟨⟨k, List.mem_append_left _ hk, hparts⟩, .inl ⟨_, hmem, rfl⟩⟩
  · obtain ⟨q, hq, htaken⟩ := List.mem_filterMap.mp hc
    refine ⟨⟨q, List.mem_append_right _ hq, parts_of_taken htaken⟩, ?_⟩
    rcases taken_eq_some_iff.mp htaken with ⟨file, hchanged, rfl⟩ | ⟨record, hretained, rfl⟩
    · have hread := ((Sorting.changed?_eq_some_iff _ _).mp hchanged).1
      obtain rfl := path_of_changed hchanged
      exact .inr ⟨hq, file, hread⟩
    · obtain ⟨f, hf, -, hpath, -⟩ := of_retained hretained
      exact .inl ⟨f, hf, hpath.symm⟩

/-- What could be read is taken. -/
theorem taken_isSome_of_read {file : SourceFile}
    (hfile : Listing.readSource t x.root path (x.walk o (some b)) = .ok (some file)) :
    ∃ c, x.taken t o b path = some c := by
  cases hrenewed : Sorting.renewed? b.records (x.readingOf t o (some b) path) with
  | none =>
      exact ⟨_, taken_eq_some_iff.mpr
        (.inl ⟨file, (Sorting.changed?_eq_some_iff _ _).mpr ⟨hfile, hrenewed⟩, rfl⟩)⟩
  | some record =>
      refine ⟨_, taken_eq_some_iff.mpr (.inr ⟨record, ?_, rfl⟩)⟩
      rw [Sorting.retained?, hrenewed, Option.some_or]

end BuildContext

end SourceIndex
