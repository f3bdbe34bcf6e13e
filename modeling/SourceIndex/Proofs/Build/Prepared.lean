import Mathlib
import SourceIndex.Proofs.Build.Fresh
import SourceIndex.Proofs.Build.Plan
import SourceIndex.Proofs.Build.Sorting

/-! # Records and chunks of a new generation

A build that starts from fresh contents makes fresh contents (`Prepared.fresh_make`), and it is
known which digests are recorded at which paths (`Prepared.mem_files_make`): those of the files
that were read, and the earlier ones of the files that were carried over unread or could not be
read.
-/

set_option autoImplicit false

namespace SourceIndex

/-- A sequence succeeds exactly if its first step does and the rest does with its result. -/
theorem bind_ok_iff {ε α β : Type} {a : Except ε α} {f : α → Except ε β} {b : β} :
    (a >>= f) = .ok b ↔ ∃ c, a = .ok c ∧ f c = .ok b := by
  cases a with
  | error e => simp [bind, Except.bind]
  | ok c => simp [bind, Except.bind]

theorem Except.eq_ok_of_toOption {ε α : Type} {e : Except ε α} {a : α} (h : e.toOption = some a) :
    e = .ok a := by
  cases e with
  | error f => cases h
  | ok b => exact congrArg _ (Option.some.inj h)

theorem Except.exists_of_isOk {ε α : Type} {e : Except ε α} (h : e.isOk = true) :
    ∃ a, e = .ok a := by
  cases e with
  | error f => cases h
  | ok a => exact ⟨a, rfl⟩

/-! ## The parts of a build -/

/-- The records that a build starts from. -/
def BuildBase.recordsOf (base : Option BuildBase) : PathMap FileRecord :=
  (base.map BuildBase.records).getD .empty

namespace BuildContext

/-- What is listed and read for a generation. -/
def walk (x : BuildContext) (o : BuildOptions) (base : Option BuildBase) : WalkOptions :=
  (WalkOptions.ofSettings x.settings.index).withLanguages (Prepared.languagesFor o base)

/-- The reading of a path. -/
def readingOf (x : BuildContext) (t : FileTree) (o : BuildOptions) (base : Option BuildBase)
    (path : Path) : Reading :=
  ⟨path, Listing.readSource t x.root path (x.walk o base)⟩

/-- The files of a plan divided. -/
def sorting (x : BuildContext) (t : FileTree) (o : BuildOptions) (base : Option BuildBase)
    (plan : ReadPlan) : Sorting :=
  Sorting.ofReadings (BuildBase.recordsOf base) plan.carry (plan.read.map (x.readingOf t o base))

/-- The files that are carried over. -/
def carriedCuts (x : BuildContext) (o : BuildOptions) (base : Option BuildBase) (s : Sorting) :
    List CutFile :=
  match base with
  | some b =>
    s.carried.keys.filterMap
      (CutFile.carry b (x.keepsVectors b (x.profileFor o base s.changed).2)
        (BuildBase.recordsOf base) s.records)
  | none => []

/-- The files that are cut anew. -/
def newCuts (x : BuildContext) (o : BuildOptions) (base : Option BuildBase) (s : Sorting) :
    List CutFile :=
  s.changed.map
    (CutFile.ofFile x.parse (x.profileFor o base s.changed).1.params.toChunkLimits)

/-- All files of the new generation. -/
def cuts (x : BuildContext) (o : BuildOptions) (base : Option BuildBase) (s : Sorting) :
    List CutFile :=
  x.carriedCuts o base s ++ x.newCuts o base s

end BuildContext

namespace ReadPlan.Apart

variable {plan : ReadPlan} (h : plan.Apart) (x : BuildContext) (t : FileTree) (o : BuildOptions)
  (base : Option BuildBase)
include h

theorem nodup_readings :
    ((plan.read.map (x.readingOf t o base)).map fun r => r.path.parts).Nodup := by
  rw [List.map_map]
  exact h.read

/-- Carried over is what was to be carried over unread, and what retains its chunks. -/
theorem perm_carried : (x.sorting t o base plan).carried.keys.Perm (plan.carry.keys ++
    plan.read.filter fun p =>
      Sorting.retains (BuildBase.recordsOf base) (x.readingOf t o base p)) := by
  have hother : ∀ r ∈ plan.read.map (x.readingOf t o base), ∀ k ∈ plan.carry.keys,
      r.path.parts ≠ k.parts := by
    intro r hr k hk
    obtain ⟨p, hp, rfl⟩ := List.mem_map.mp hr
    exact h.disjoint p hp k hk
  have hperm := Sorting.perm_carried_foldl (BuildBase.recordsOf base)
    (h.nodup_readings x t o base) (s := { carried := plan.carry }) hother
  have hpaths : Reading.path ∘ x.readingOf t o base = id := rfl
  rw [List.filter_map, List.map_map, hpaths, List.map_id] at hperm
  exact hperm

theorem records_of_read {path : Path} (hp : path ∈ plan.read) :
    (x.sorting t o base plan).records.get? path =
      Sorting.renewed? (BuildBase.recordsOf base) (x.readingOf t o base path) := by
  have hrecords := Sorting.records_foldl_of_mem (BuildBase.recordsOf base)
    (h.nodup_readings x t o base) (s := { carried := plan.carry }) (List.mem_map_of_mem hp) rfl
  exact hrecords

theorem records_of_carry {path : Path} (hp : path ∈ plan.carry.keys) :
    (x.sorting t o base plan).records.get? path = none := by
  have hother : ∀ r ∈ plan.read.map (x.readingOf t o base), r.path.parts ≠ path.parts := by
    intro r hr
    obtain ⟨q, hq, rfl⟩ := List.mem_map.mp hr
    exact h.disjoint q hq path hp
  have hrecords := Sorting.records_foldl_of_not_mem (BuildBase.recordsOf base) hother
    { carried := plan.carry }
  exact hrecords

end ReadPlan.Apart

namespace Prepared

variable {t : FileTree} {x : BuildContext} {o : BuildOptions} {base : Option BuildBase}

theorem files_ofSorting (s : Sorting) :
    (ofSorting x o base s).files =
      ((x.cuts o base s).map CutFile.record).mergeSort fun f g => f.path.le g.path := by
  cases base <;> rfl

theorem chunks_ofSorting (s : Sorting) :
    (ofSorting x o base s).chunks = (x.cuts o base s).flatMap CutFile.chunks := by
  cases base <;> rfl

theorem make_eq (hints : Option (List Path)) :
    make t x o base hints = (do
      let plan ← ReadPlan.make t x.root (x.walk o base)
        ((base.map BuildBase.records).map PathMap.keys) hints
      o.pass .read
      let s := x.sorting t o base plan
      let attempted := (plan.read.map (x.readingOf t o base)).length
      if s.exceeds attempted x.settings.index.failureThreshold then
        throw (.failureThreshold s.failed attempted)
      o.pass .cut
      return ofSorting x o base s) := rfl

/-- When a build gets as far as the records and chunks of its generation. -/
theorem make_ok_iff (hints : Option (List Path)) (p : Prepared) :
    make t x o base hints = .ok p ↔
      ∃ plan, ReadPlan.make t x.root (x.walk o base)
          ((base.map BuildBase.records).map PathMap.keys) hints = .ok plan ∧
        o.pass .read = .ok () ∧
        (x.sorting t o base plan).exceeds plan.read.length x.settings.index.failureThreshold
          = false ∧
        o.pass .cut = .ok () ∧ p = ofSorting x o base (x.sorting t o base plan) := by
  rw [make_eq, bind_ok_iff]
  refine exists_congr fun plan => and_congr_right fun _ => ?_
  rw [bind_ok_iff, List.length_map]
  constructor
  · rintro ⟨_, hread, hrest⟩
    dsimp only at hrest
    split at hrest
    · obtain ⟨_, hthrow, -⟩ := bind_ok_iff.mp hrest
      cases hthrow
    · rename_i hexceeds
      obtain ⟨_, hcut, hp⟩ := bind_ok_iff.mp hrest
      exact ⟨hread, by simpa using hexceeds, hcut, (Except.ok.inj hp).symm⟩
  · rintro ⟨hread, hexceeds, hcut, rfl⟩
    refine ⟨(), hread, ?_⟩
    dsimp only
    rw [hexceeds]
    exact bind_ok_iff.mpr ⟨(), hcut, rfl⟩

end Prepared

/-! ## Earlier records -/

/-- What a build starts from, if from anything, is fresh. -/
def BuildBase.IsFresh (parse : Chunk.Parse) (texts : Set String) (base : Option BuildBase) : Prop :=
  ∀ b, base = some b →
    Fresh parse texts b.facts.profile.params.toChunkLimits b.store.files b.store.chunks

namespace BuildBase

variable {parse : Chunk.Parse} {texts : Set String} {limits : ChunkLimits} {b : BuildBase}
  {base : Option BuildBase}

theorem mem_orderedFiles (s : Store) (f : FileRecord) : f ∈ s.orderedFiles ↔ f ∈ s.files := by
  rw [Store.orderedFiles]
  exact List.mem_mergeSort

theorem get?_records_iff (hb : Fresh parse texts limits b.store.files b.store.chunks) {p : Path}
    (hp : p.IsNormal) (f : FileRecord) :
    b.records.get? p = some f ↔ f ∈ b.store.files ∧ f.path = p := by
  have hperm : (b.store.orderedFiles.map fun f => f.path).Perm
      (b.store.files.map FileRecord.path) :=
    (List.mergeSort_perm _ _).map _
  rw [records, PathMap.get?_ofList_iff _ _ hp, List.mem_map]
  · simp only [mem_orderedFiles, Prod.mk.injEq]
    constructor
    · rintro ⟨g, hg, hpath, rfl⟩
      exact ⟨hg, hpath⟩
    · rintro ⟨hf, hpath⟩
      exact ⟨f, hf, hpath, rfl⟩
  · rw [List.map_map]
    exact hperm.nodup_iff.mpr hb.nodup
  · intro e he
    obtain ⟨g, hg, rfl⟩ := List.mem_map.mp he
    exact hb.normal g ((mem_orderedFiles b.store g).mp hg)

theorem exists_of_mem_keys {p : Path} (h : p ∈ b.records.keys) :
    ∃ f ∈ b.store.files, f.path = p := by
  obtain ⟨e, he, rfl⟩ := List.mem_map.mp h
  obtain ⟨f, hf, rfl⟩ := List.mem_map.mp (PathMap.mem_ofList he)
  exact ⟨f, (mem_orderedFiles b.store f).mp hf, rfl⟩

theorem mem_keys_iff (hb : Fresh parse texts limits b.store.files b.store.chunks) (p : Path) :
    p ∈ b.records.keys ↔ ∃ f ∈ b.store.files, f.path = p := by
  refine ⟨exists_of_mem_keys, ?_⟩
  rintro ⟨f, hf, rfl⟩
  have hget := (get?_records_iff hb (hb.normal f hf) f).mpr ⟨hf, rfl⟩
  obtain ⟨k, hk, hparts⟩ := PathMap.exists_mem_of_get? hget
  obtain ⟨g, hg, hgk⟩ := exists_of_mem_keys (PathMap.mem_keys_of_mem hk)
  have hpath : k = f.path :=
    (hgk ▸ hb.normal g hg).eq_of_parts (hb.normal f hf) hparts
  exact hpath ▸ PathMap.mem_keys_of_mem hk

theorem get?_recordsOf_iff (hbase : IsFresh parse texts base) {p : Path} (hp : p.IsNormal)
    (f : FileRecord) :
    (recordsOf base).get? p = some f ↔ ∃ b, base = some b ∧ f ∈ b.store.files ∧ f.path = p := by
  cases base with
  | none => simp [recordsOf, PathMap.empty, PathMap.get?]
  | some b =>
      rw [recordsOf, Option.map_some, Option.getD_some, get?_records_iff (hbase b rfl) hp]
      simp

end BuildBase

/-! ## What is carried over -/

/-- A reading is of a text: if it gives a file then that of a known text at its path. -/
def Reading.IsOf (texts : Set String) (r : Reading) : Prop :=
  ∀ file, r.result = .ok (some file) →
    file = SourceFile.ofPath r.path file.content ∧ file.content ∈ texts

section Carry

variable {parse : Chunk.Parse} {texts : Set String} {base : Option BuildBase} {b : BuildBase}

/-- Renewing a record does not change it. -/
theorem Sorting.renewed?_eq (hbase : BuildBase.IsFresh parse texts base)
    (hinj : ∀ b, base = some b → Set.InjOn Digest.ofText texts) {r : Reading}
    (hr : r.path.IsNormal) (htext : r.IsOf texts) {record : FileRecord}
    (h : renewed? (BuildBase.recordsOf base) r = some record) :
    (BuildBase.recordsOf base).get? r.path = some record ∧
      ∃ file, r.result = .ok (some file) ∧ record.contentHash = file.contentHash := by
  rw [renewed?] at h
  split at h
  · rename_i file hfile
    obtain ⟨earlier, hearlier, hrenewed⟩ := Option.bind_eq_some_iff.mp h
    split at hrenewed
    · rename_i hhash
      cases hrenewed
      obtain ⟨b, hb, hmem, hpath⟩ := (BuildBase.get?_recordsOf_iff hbase hr earlier).mp hearlier
      obtain ⟨text, htext', hrecord, -⟩ := (hbase b hb).cut earlier hmem
      obtain ⟨hofPath, hcontent⟩ := htext file hfile
      have hdigest : Digest.ofText text = Digest.ofText file.content := by
        rw [hrecord, hofPath] at hhash
        exact hhash
      obtain rfl := hinj b hb htext' hcontent hdigest
      have hsame : { earlier with modified := 0, size := file.size } = earlier := by
        rw [hrecord, hofPath]
        rfl
      rw [hsame]
      exact ⟨hearlier, file, hfile, hhash⟩
    · cases hrenewed
  · cases h
  · cases h

theorem CutFile.carry_spec (hbase : BuildBase.IsFresh parse texts (some b)) {keepVectors : Bool}
    {renewed : PathMap FileRecord} {path : Path} (hpath : path.IsNormal)
    (hrenewed : ∀ record, renewed.get? path = some record →
      (BuildBase.recordsOf (some b)).get? path = some record) {c : CutFile}
    (h : CutFile.carry b keepVectors (BuildBase.recordsOf (some b)) renewed path = some c) :
    c.record ∈ b.store.files ∧ c.record.path = path ∧
      c.IsFresh parse texts b.facts.profile.params.toChunkLimits := by
  obtain ⟨record, hrecord, rfl⟩ := Option.map_eq_some_iff.mp h
  have hget : (BuildBase.recordsOf (some b)).get? path = some record := by
    rcases Option.or_eq_some_iff.mp hrecord with hrecord | ⟨-, hrecord⟩
    · exact hrenewed record hrecord
    · exact hrecord
  obtain ⟨b', hb', hmem, rfl⟩ := (BuildBase.get?_recordsOf_iff hbase hpath record).mp hget
  cases hb'
  refine ⟨hmem, rfl, ?_⟩
  obtain ⟨text, htext, heq, hperm⟩ := (hbase b rfl).cut record hmem
  have hchunks : ((b.store.chunksOf record.path).map Chunk.bare).Perm
      (CutFile.ofText parse b.facts.profile.params.toChunkLimits record.path text).chunks :=
    ((List.mergeSort_perm _ _).map _).trans hperm
  refine ⟨text, htext, heq, ?_⟩
  cases keepVectors with
  | true => exact hchunks
  | false =>
      have hbare : ((b.store.chunksOf record.path).map fun c => { c with embedding := none }).map
          Chunk.bare = (b.store.chunksOf record.path).map Chunk.bare := by
        rw [List.map_map]
        rfl
      simpa only [Bool.false_eq_true, if_false, hbare] using hchunks

/-- What has an earlier record can be carried over. -/
theorem CutFile.carry_isSome (b : BuildBase) (keepVectors : Bool)
    {earlier : PathMap FileRecord} (renewed : PathMap FileRecord) {path : Path}
    {record : FileRecord} (h : earlier.get? path = some record) :
    ∃ c, CutFile.carry b keepVectors earlier renewed path = some c := by
  rw [CutFile.carry, h]
  cases renewed.get? path with
  | none => exact ⟨_, rfl⟩
  | some record' => exact ⟨_, rfl⟩

end Carry

/-! ## The files of a new generation -/

/-- What the files of a new generation are made from: a sound plan that carries over earlier paths
only, fresh contents, and texts that are told apart by their digests if there were earlier ones. -/
structure BuildContext.Ready (x : BuildContext) (t : FileTree) (o : BuildOptions)
    (base : Option BuildBase) (texts : Set String) (plan : ReadPlan) : Prop where
  sound : plan.Sound
  earlier : ∀ p ∈ plan.carry.keys, ∃ b, base = some b ∧ ∃ f ∈ b.store.files, f.path = p
  fresh : BuildBase.IsFresh x.parse texts base
  read : ∀ p, (x.readingOf t o base p).IsOf texts
  inj : ∀ b, base = some b → Set.InjOn Digest.ofText texts

/-- Every source file that can be read under a root has one of the given texts. -/
def ReadsWithin (texts : Set String) (t : FileTree) (root : Path) : Prop :=
  ∀ path o file, Listing.readSource t root path o = .ok (some file) → file.content ∈ texts

namespace BuildContext.Ready

variable {x : BuildContext} {t : FileTree} {o : BuildOptions} {base : Option BuildBase}
  {texts : Set String} {plan : ReadPlan}

/-- Every plan that a build makes will do. -/
theorem of_make (hwf : t.WellFormed) (hfresh : BuildBase.IsFresh x.parse texts base)
    (htexts : ReadsWithin texts t x.root)
    (hinj : ∀ b, base = some b → Set.InjOn Digest.ofText texts)
    {hints : Option (List Path)}
    (hhints : ∀ hs, hints = some hs → ∀ h ∈ ReadPlan.usefulHints x.root (x.walk o base) hs,
      h.IsNormal)
    (h : ReadPlan.make t x.root (x.walk o base) ((base.map BuildBase.records).map PathMap.keys)
      hints = .ok plan) : x.Ready t o base texts plan := by
  have hearlier : ∀ ps, (base.map BuildBase.records).map PathMap.keys = some ps →
      ∀ p ∈ ps, ∃ b, base = some b ∧ ∃ f ∈ b.store.files, f.path = p := by
    intro ps hps p hp
    obtain ⟨b, hb, rfl⟩ := Option.map_eq_some_iff.mp (Option.map_map _ _ base ▸ hps)
    exact ⟨b, hb, BuildBase.exists_of_mem_keys hp⟩
  have hnormal : ∀ ps, (base.map BuildBase.records).map PathMap.keys = some ps →
      ∀ p ∈ ps, p.IsNormal := by
    intro ps hps p hp
    obtain ⟨b, hb, f, hf, rfl⟩ := hearlier ps hps p hp
    exact (hfresh b hb).normal f hf
  obtain ⟨hsound, hcarry⟩ := ReadPlan.make_sound hwf hnormal hhints h
  refine ⟨hsound, fun p hp => ?_, hfresh, fun p file hfile => ?_, hinj⟩
  · obtain ⟨ps, hps, hmem⟩ := hcarry p hp
    exact hearlier ps hps p hmem
  · exact ⟨Listing.eq_ofPath_of_readSource hfile, htexts p _ file hfile⟩

theorem carried (h : x.Ready t o base texts plan) :
    (x.sorting t o base plan).carried.IsNormal ∧ (x.sorting t o base plan).carried.keys.Nodup ∧
      ∀ p, p ∈ (x.sorting t o base plan).carried.keys ↔ p ∈ plan.carry.keys ∨
        p ∈ plan.read ∧
          Sorting.retains (BuildBase.recordsOf base) (x.readingOf t o base p) = true := by
  have hperm := h.sound.apart.perm_carried x t o base
  have hmem : ∀ p, p ∈ (x.sorting t o base plan).carried.keys ↔ p ∈ plan.carry.keys ∨
      p ∈ plan.read ∧
        Sorting.retains (BuildBase.recordsOf base) (x.readingOf t o base p) = true := by
    intro p
    rw [hperm.mem_iff, List.mem_append, List.mem_filter]
  refine ⟨fun p hp => ?_, hperm.nodup_iff.mpr ?_, hmem⟩
  · rcases (hmem p).mp hp with hp | ⟨hp, -⟩
    · exact h.sound.carry p hp
    · exact h.sound.read p hp
  · rw [List.nodup_append]
    refine ⟨h.sound.sorted.nodup_keys, h.sound.nodup.filter _, fun p hp q hq hpq => ?_⟩
    exact h.sound.disjoint q (List.mem_filter.mp hq).1 (hpq ▸ hp)

theorem mem_changed_iff (file : SourceFile) :
    file ∈ (x.sorting t o base plan).changed ↔ ∃ p ∈ plan.read,
      Sorting.changed? (BuildBase.recordsOf base) (x.readingOf t o base p) = some file := by
  rw [sorting, Sorting.changed_ofReadings, List.mem_filterMap]
  simp only [List.mem_map, exists_exists_and_eq_and]

/-- The limits at which the files of the new generation are cut. -/
def limits (x : BuildContext) (t : FileTree) (o : BuildOptions) (base : Option BuildBase)
    (plan : ReadPlan) : ChunkLimits :=
  (x.profileFor o base (x.sorting t o base plan).changed).1.params.toChunkLimits

/-- A renewed record is an earlier one. -/
theorem get?_of_renewed (h : x.Ready t o base texts plan) {p : Path} (hp : p.IsNormal)
    {record : FileRecord} (hrecord : (x.sorting t o base plan).records.get? p = some record) :
    (BuildBase.recordsOf base).get? p = some record := by
  obtain ⟨r, hr, hparts, hrenewed⟩ := Sorting.renewed_of_ofReadings hrecord
  obtain ⟨q, hq, rfl⟩ := List.mem_map.mp hr
  have hq := h.sound.read q hq
  obtain ⟨hget, -⟩ := Sorting.renewed?_eq h.fresh h.inj hq (h.read q) hrenewed
  have hqp : q = p := hq.eq_of_parts hp hparts
  exact hqp ▸ hget

/-- The files that are carried over are those with earlier records among the paths to carry. -/
theorem carriedCuts_spec (h : x.Ready t o base texts plan) :
    ((x.carriedCuts o base (x.sorting t o base plan)).map fun c => c.record.path).Nodup ∧
      (∀ c ∈ x.carriedCuts o base (x.sorting t o base plan),
        c.IsFresh x.parse texts (limits x t o base plan)) ∧
      ∀ f, (∃ c ∈ x.carriedCuts o base (x.sorting t o base plan), c.record = f) ↔
        f.path ∈ (x.sorting t o base plan).carried.keys ∧ ∃ b, base = some b ∧ f ∈ b.store.files := by
  obtain ⟨hnormal, hnodup, -⟩ := h.carried
  cases base with
  | none => exact ⟨List.nodup_nil, by simp [carriedCuts], by simp [carriedCuts]⟩
  | some b =>
      -- a path that is carried over has one earlier record, and keeps it
      have hcarry : ∀ p ∈ (x.sorting t o (some b) plan).carried.keys, ∀ c,
          CutFile.carry b (x.keepsVectors b
              (x.profileFor o (some b) (x.sorting t o (some b) plan).changed).2)
            (BuildBase.recordsOf (some b)) (x.sorting t o (some b) plan).records p = some c →
          c.record ∈ b.store.files ∧ c.record.path = p ∧
            c.IsFresh x.parse texts (limits x t o (some b) plan) := fun p hp c hc =>
        CutFile.carry_spec h.fresh (hnormal p hp)
          (fun record hrecord => h.get?_of_renewed (hnormal p hp) hrecord) hc
      refine ⟨?_, ?_, ?_⟩
      · rw [List.Nodup, List.pairwise_map, carriedCuts, List.pairwise_filterMap]
        refine List.Pairwise.imp_of_mem ?_ hnodup
        intro p q hp hq hne c hc d hd hsame
        rw [(hcarry p hp c hc).2.1, (hcarry q hq d hd).2.1] at hsame
        exact hne hsame
      · intro c hc
        obtain ⟨p, hp, hcarried⟩ := List.mem_filterMap.mp hc
        exact (hcarry p hp c hcarried).2.2
      · intro f
        constructor
        · rintro ⟨c, hc, rfl⟩
          obtain ⟨p, hp, hcarried⟩ := List.mem_filterMap.mp hc
          obtain ⟨hmem, rfl, -⟩ := hcarry p hp c hcarried
          exact ⟨hp, b, rfl, hmem⟩
        · rintro ⟨hp, b', hb', hf⟩
          cases hb'
          have hget := (BuildBase.get?_recordsOf_iff h.fresh (hnormal _ hp) f).mpr ⟨b, rfl, hf, rfl⟩
          obtain ⟨c, hc⟩ := CutFile.carry_isSome b _ (x.sorting t o (some b) plan).records hget
          refine ⟨c, List.mem_filterMap.mpr ⟨f.path, hp, hc⟩, ?_⟩
          obtain ⟨hmem, hpath, -⟩ := hcarry f.path hp c hc
          exact List.inj_on_of_nodup_map (h.fresh b rfl).nodup hmem hf hpath

/-- A file that is cut anew was read. -/
theorem of_changed? (h : x.Ready t o base texts plan) {p : Path} {file : SourceFile}
    (hfile : Sorting.changed? (BuildBase.recordsOf base) (x.readingOf t o base p) = some file) :
    file = SourceFile.ofPath p file.content ∧ file.content ∈ texts :=
  h.read p file ((Sorting.changed?_eq_some_iff _ _).mp hfile).1

/-- The files that are cut anew are those that were read and changed. -/
theorem newCuts_spec (h : x.Ready t o base texts plan) :
    ((x.newCuts o base (x.sorting t o base plan)).map fun c => c.record.path).Nodup ∧
      (∀ c ∈ x.newCuts o base (x.sorting t o base plan),
        c.IsFresh x.parse texts (limits x t o base plan)) ∧
      ∀ c, c ∈ x.newCuts o base (x.sorting t o base plan) ↔ ∃ p ∈ plan.read, ∃ file,
        Sorting.changed? (BuildBase.recordsOf base) (x.readingOf t o base p) = some file ∧
          c = CutFile.ofText x.parse (limits x t o base plan) p file.content := by
  have hcut : ∀ {p file}, Sorting.changed? (BuildBase.recordsOf base) (x.readingOf t o base p)
      = some file → CutFile.ofFile x.parse (limits x t o base plan) file =
        CutFile.ofText x.parse (limits x t o base plan) p file.content := by
    intro p file hfile
    rw [CutFile.ofText, ← (h.of_changed? hfile).1]
  have hmem : ∀ c, c ∈ x.newCuts o base (x.sorting t o base plan) ↔ ∃ p ∈ plan.read, ∃ file,
      Sorting.changed? (BuildBase.recordsOf base) (x.readingOf t o base p) = some file ∧
        c = CutFile.ofText x.parse (limits x t o base plan) p file.content := by
    intro c
    constructor
    · intro hc
      obtain ⟨file, hfile, rfl⟩ := List.mem_map.mp hc
      obtain ⟨p, hp, hchanged⟩ := (mem_changed_iff file).mp hfile
      exact ⟨p, hp, file, hchanged, hcut hchanged⟩
    · rintro ⟨p, hp, file, hchanged, rfl⟩
      refine List.mem_map.mpr ⟨file, (mem_changed_iff file).mpr ⟨p, hp, hchanged⟩, ?_⟩
      exact hcut hchanged
  refine ⟨?_, ?_, hmem⟩
  · rw [newCuts, List.map_map, sorting, Sorting.changed_ofReadings, List.Nodup, List.pairwise_map,
      List.pairwise_filterMap, List.pairwise_map]
    refine List.Pairwise.imp ?_ h.sound.nodup
    intro p q hne file hfile file' hfile' hsame
    apply hne
    have hpath : file.path = file'.path := hsame
    rw [(h.of_changed? hfile).1, (h.of_changed? hfile').1] at hpath
    exact hpath
  · intro c hc
    obtain ⟨p, -, file, hchanged, rfl⟩ := (hmem c).mp hc
    exact CutFile.isFresh_ofText (h.of_changed? hchanged).2

/-- No path is carried over and cut anew. -/
theorem disjoint (h : x.Ready t o base texts plan) {p : Path}
    (hcarried : p ∈ (x.sorting t o base plan).carried.keys) (hp : p ∈ plan.read)
    (file : SourceFile) :
    Sorting.changed? (BuildBase.recordsOf base) (x.readingOf t o base p) ≠ some file := by
  rcases (h.carried.2.2 p).mp hcarried with hcarry | ⟨-, hretains⟩
  · exact absurd hcarry (h.sound.disjoint p hp)
  · exact Sorting.not_changed_of_retains hretains file

theorem nodup_cuts (h : x.Ready t o base texts plan) :
    ((x.cuts o base (x.sorting t o base plan)).map fun c => c.record.path).Nodup := by
  obtain ⟨hcarried, -, hold⟩ := h.carriedCuts_spec
  obtain ⟨hnew, -, hmem⟩ := h.newCuts_spec
  rw [cuts, List.map_append, List.nodup_append]
  refine ⟨hcarried, hnew, ?_⟩
  intro p hp q hq hsame
  subst hsame
  obtain ⟨c, hc, rfl⟩ := List.mem_map.mp hp
  obtain ⟨d, hd, hpath⟩ := List.mem_map.mp hq
  obtain ⟨q, hq, file, hchanged, rfl⟩ := (hmem d).mp hd
  have hkey := ((hold c.record).mp ⟨c, hc, rfl⟩).1
  rw [← hpath] at hkey
  exact h.disjoint hkey hq file hchanged

/-- The contents of the new generation are fresh. -/
theorem fresh_ofSorting (h : x.Ready t o base texts plan) :
    Fresh x.parse texts (limits x t o base plan)
      (Prepared.ofSorting x o base (x.sorting t o base plan)).files
      (Prepared.ofSorting x o base (x.sorting t o base plan)).chunks := by
  obtain ⟨-, hfreshOld, hold⟩ := h.carriedCuts_spec
  obtain ⟨-, hfreshNew, hnew⟩ := h.newCuts_spec
  rw [Prepared.files_ofSorting, Prepared.chunks_ofSorting]
  refine Fresh.ofCuts ?_ ?_ h.nodup_cuts (List.mergeSort_perm _ _)
  · intro c hc
    rcases List.mem_append.mp hc with hc | hc
    · exact hfreshOld c hc
    · exact hfreshNew c hc
  · intro c hc
    rcases List.mem_append.mp hc with hc | hc
    · exact h.carried.1 _ ((hold c.record).mp ⟨c, hc, rfl⟩).1
    · obtain ⟨p, hp, file, -, rfl⟩ := (hnew c).mp hc
      exact h.sound.read p hp

/-- The files of the new generation: the earlier ones at the paths that are carried over, and those
that are cut anew. -/
theorem mem_files_iff_cut (h : x.Ready t o base texts plan) (f : FileRecord) :
    f ∈ (Prepared.ofSorting x o base (x.sorting t o base plan)).files ↔
      (f.path ∈ (x.sorting t o base plan).carried.keys ∧ ∃ b, base = some b ∧ f ∈ b.store.files) ∨
        ∃ p ∈ plan.read, ∃ file,
          Sorting.changed? (BuildBase.recordsOf base) (x.readingOf t o base p) = some file ∧
            (CutFile.ofText x.parse (limits x t o base plan) p file.content).record = f := by
  obtain ⟨-, -, hold⟩ := h.carriedCuts_spec
  obtain ⟨-, -, hnew⟩ := h.newCuts_spec
  rw [Prepared.files_ofSorting, List.mem_mergeSort, List.mem_map, cuts, ← hold f]
  simp only [List.mem_append, or_and_right, exists_or]
  refine or_congr_right ⟨?_, ?_⟩
  · rintro ⟨c, hc, rfl⟩
    obtain ⟨p, hp, file, hchanged, rfl⟩ := (hnew c).mp hc
    exact ⟨p, hp, file, hchanged, rfl⟩
  · rintro ⟨p, hp, file, hchanged, rfl⟩
    exact ⟨_, (hnew _).mpr ⟨p, hp, file, hchanged, rfl⟩, rfl⟩

/-- An earlier record is renewed if its file was read and has its digest. -/
theorem of_renewed? (h : x.Ready t o base texts plan) {p : Path} (hp : p ∈ plan.read)
    {record : FileRecord}
    (hrenewed : Sorting.renewed? (BuildBase.recordsOf base) (x.readingOf t o base p) = some record) :
    (∀ f, f = record ↔ ∃ b, base = some b ∧ f ∈ b.store.files ∧ f.path = p) ∧
      ∃ file, (x.readingOf t o base p).result = .ok (some file) ∧
        record.contentHash = file.contentHash := by
  have hnormal := h.sound.read p hp
  obtain ⟨hget, hread⟩ := Sorting.renewed?_eq h.fresh h.inj hnormal (h.read p) hrenewed
  refine ⟨fun f => ?_, hread⟩
  rw [← BuildBase.get?_recordsOf_iff h.fresh hnormal f]
  have hget : (BuildBase.recordsOf base).get? p = some record := hget
  rw [hget, Option.some.injEq, eq_comm]

/-- A file that was read is in the new generation with the digest of its text. -/
theorem mem_files_of_read (h : x.Ready t o base texts plan) {p : Path} (hp : p ∈ plan.read)
    {file : SourceFile} (hfile : (x.readingOf t o base p).result = .ok (some file)) :
    ∃ f ∈ (Prepared.ofSorting x o base (x.sorting t o base plan)).files,
      f.path = p ∧ f.contentHash = file.contentHash := by
  cases hrenewed : Sorting.renewed? (BuildBase.recordsOf base) (x.readingOf t o base p) with
  | none =>
      have hchanged := (Sorting.changed?_eq_some_iff _ _).mpr ⟨hfile, hrenewed⟩
      refine ⟨_, (h.mem_files_iff_cut _).mpr (Or.inr ⟨p, hp, file, hchanged, rfl⟩), rfl, ?_⟩
      rw [(h.of_changed? hchanged).1]
      rfl
  | some record =>
      obtain ⟨hrecord, file', hfile', hhash⟩ := h.of_renewed? hp hrenewed
      obtain ⟨b, hb, hmem, rfl⟩ := (hrecord record).mp rfl
      cases hfile.symm.trans hfile'
      have hretains : Sorting.retains (BuildBase.recordsOf base)
          (x.readingOf t o base record.path) = true := by
        rw [Sorting.retains, hrenewed]
        rfl
      have hkey := (h.carried.2.2 _).mpr (Or.inr ⟨hp, hretains⟩)
      exact ⟨record, (h.mem_files_iff_cut record).mpr (Or.inl ⟨hkey, b, hb, hmem⟩), rfl, hhash⟩

/-- An earlier file stays if it is carried over unread, or could not be read. -/
theorem mem_files_of_kept (h : x.Ready t o base texts plan) {b : BuildBase} (hb : base = some b)
    {f : FileRecord} (hf : f ∈ b.store.files)
    (hkept : f.path ∈ plan.carry.keys ∨
      f.path ∈ plan.read ∧ Sorting.fails (x.readingOf t o base f.path) = true) :
    f ∈ (Prepared.ofSorting x o base (x.sorting t o base plan)).files := by
  refine (h.mem_files_iff_cut f).mpr (Or.inl ⟨(h.carried.2.2 f.path).mpr ?_, b, hb, hf⟩)
  refine hkept.imp_right ?_
  rintro ⟨hp, hfails⟩
  have hget := (BuildBase.get?_recordsOf_iff h.fresh (h.sound.read _ hp) f).mpr ⟨b, hb, hf, rfl⟩
  have hcontains : (BuildBase.recordsOf base).contains (x.readingOf t o base f.path).path = true := by
    rw [PathMap.contains_eq]
    exact Option.isSome_iff_exists.mpr ⟨f, hget⟩
  refine ⟨hp, ?_⟩
  rw [Sorting.retains, hfails, hcontains]
  simp

/-- The digests of the new generation: those of the files that were read, and the earlier ones of
the files that are carried over unread or could not be read. -/
theorem mem_files_iff (h : x.Ready t o base texts plan) (p : Path) (hash : String) :
    (∃ f ∈ (Prepared.ofSorting x o base (x.sorting t o base plan)).files,
        f.path = p ∧ f.contentHash = hash) ↔
      (p ∈ plan.read ∧ ∃ file, (x.readingOf t o base p).result = .ok (some file) ∧
        file.contentHash = hash) ∨
      ((p ∈ plan.carry.keys ∨ p ∈ plan.read ∧ Sorting.fails (x.readingOf t o base p) = true) ∧
        ∃ b, base = some b ∧ ∃ f ∈ b.store.files, f.path = p ∧ f.contentHash = hash) := by
  constructor
  · rintro ⟨f, hf, rfl, rfl⟩
    rcases (h.mem_files_iff_cut f).mp hf with
      ⟨hkey, b, hb, hmem⟩ | ⟨p, hp, file, hchanged, rfl⟩
    · rcases (h.carried.2.2 f.path).mp hkey with hcarry | ⟨hp, hretains⟩
      · exact Or.inr ⟨Or.inl hcarry, b, hb, f, hmem, rfl, rfl⟩
      · -- a file that was read keeps its record because it is the same, or because it failed
        cases hrenewed : Sorting.renewed? (BuildBase.recordsOf base) (x.readingOf t o base f.path) with
        | none =>
            rw [Sorting.retains, hrenewed] at hretains
            simp only [Option.isSome_none, Bool.false_or, Bool.and_eq_true] at hretains
            exact Or.inr ⟨Or.inr ⟨hp, hretains.1⟩, b, hb, f, hmem, rfl, rfl⟩
        | some record =>
            obtain ⟨hrecord, file, hfile, hhash⟩ := h.of_renewed? hp hrenewed
            obtain rfl := (hrecord f).mpr ⟨b, hb, hmem, rfl⟩
            exact Or.inl ⟨hp, file, hfile, hhash.symm⟩
    · refine Or.inl ⟨hp, file, ((Sorting.changed?_eq_some_iff _ _).mp hchanged).1, ?_⟩
      rw [(h.of_changed? hchanged).1]
      rfl
  · rintro (⟨hp, file, hfile, rfl⟩ | ⟨hkept, b, hb, f, hf, rfl, rfl⟩)
    · exact h.mem_files_of_read hp hfile
    · exact ⟨f, h.mem_files_of_kept hb hf hkept, rfl, rfl⟩

end BuildContext.Ready

end SourceIndex
