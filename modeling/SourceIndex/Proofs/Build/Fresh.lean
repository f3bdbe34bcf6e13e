import Mathlib
import SourceIndex.Build.Basic
import SourceIndex.Proofs.Chunk.Emitted
import SourceIndex.Proofs.Files.Listing

/-! # Fresh contents

The contents of an index are *fresh* if the record and the chunks of every file are those of one
text, and no chunk is without a record (`Fresh`). Texts are told apart by their digests, so fresh
contents with the same digests at the same paths are the same but for vectors and order
(`Fresh.perm`).
-/

set_option autoImplicit false

namespace SourceIndex

/-! ## Chunks without vectors -/

/-- The chunk without its vector. -/
def Chunk.bare (c : Chunk) : Chunk := { c with embedding := none }

@[simp] theorem Chunk.bare_path (c : Chunk) : c.bare.path = c.path := rfl

@[simp] theorem Chunk.bare_id (c : Chunk) : c.bare.id = c.id := rfl

theorem Chunk.map_id_map_bare (cs : List Chunk) : (cs.map bare).map Chunk.id = cs.map Chunk.id := by
  rw [List.map_map]
  rfl

@[simp] theorem Chunk.bare_bare (c : Chunk) : c.bare.bare = c.bare := rfl

theorem Chunk.bare_of_emitted {path : Path} {c : Chunk} (h : c.IsEmitted path) : c.bare = c := by
  rw [bare, ← h.2]

/-- Whether every chunk belongs to a record has nothing to do with vectors. -/
theorem Chunk.recorded_of_map_bare {files : List FileRecord} {chunks chunks' : List Chunk}
    (h : ∀ c ∈ chunks, ∃ f ∈ files, f.path = c.path)
    (hbare : chunks'.map bare = chunks.map bare) : ∀ c ∈ chunks', ∃ f ∈ files, f.path = c.path := by
  intro c hc
  have hmem : c.bare ∈ chunks.map bare := hbare ▸ List.mem_map_of_mem hc
  obtain ⟨d, hd, hdc⟩ := List.mem_map.mp hmem
  obtain ⟨f, hf, hpath⟩ := h d hd
  have hsame : d.path = c.path := by rw [← bare_path, hdc, bare_path]
  exact ⟨f, hf, hpath.trans hsame⟩

/-! ## Cut files -/

namespace CutFile

/-- The file that a text at a path is, cut. -/
def ofText (parse : Chunk.Parse) (limits : ChunkLimits) (path : Path) (text : String) : CutFile :=
  ofFile parse limits (SourceFile.ofPath path text)

variable (parse : Chunk.Parse) (limits : ChunkLimits) (path : Path) (text : String)

@[simp] theorem ofText_path : (ofText parse limits path text).record.path = path := rfl

@[simp] theorem ofText_contentHash :
    (ofText parse limits path text).record.contentHash = Digest.ofText text := rfl

theorem emitted_ofText : ∀ c ∈ (ofText parse limits path text).chunks, c.IsEmitted path :=
  Chunk.emitted_ofFile parse (SourceFile.ofPath path text) limits

theorem map_bare_ofText :
    (ofText parse limits path text).chunks.map Chunk.bare =
      (ofText parse limits path text).chunks := by
  rw [List.map_congr_left fun c hc => Chunk.bare_of_emitted (emitted_ofText parse limits path text c hc)]
  exact List.map_id' _

/-- The record and the chunks of a cut file are those of a text, but for vectors and order. -/
def IsFresh (parse : Chunk.Parse) (texts : Set String) (limits : ChunkLimits) (c : CutFile) :
    Prop :=
  ∃ text ∈ texts, c.record = (ofText parse limits c.record.path text).record ∧
    (c.chunks.map Chunk.bare).Perm (ofText parse limits c.record.path text).chunks

variable {parse limits path text}

theorem isFresh_ofText {texts : Set String} (h : text ∈ texts) :
    (ofText parse limits path text).IsFresh parse texts limits :=
  ⟨text, h, rfl, by rw [map_bare_ofText]; exact List.Perm.refl _⟩

theorem IsFresh.path_eq {texts : Set String} {c : CutFile} (h : c.IsFresh parse texts limits) :
    ∀ d ∈ c.chunks, d.path = c.record.path := by
  obtain ⟨text, -, -, hperm⟩ := h
  intro d hd
  have hmem := hperm.mem_iff.mp (List.mem_map_of_mem hd)
  exact (emitted_ofText parse limits _ text _ hmem).1

/-- The chunks of cut files of different paths, picked out by one path again. -/
theorem filter_flatMap {cuts : List CutFile} (hnodup : (cuts.map fun c => c.record.path).Nodup)
    (hpath : ∀ c ∈ cuts, ∀ d ∈ c.chunks, d.path = c.record.path) {c : CutFile} (hc : c ∈ cuts) :
    (cuts.flatMap CutFile.chunks).filter (fun d => d.path = c.record.path) = c.chunks := by
  have hown : ∀ e ∈ cuts, e.record.path ≠ c.record.path →
      e.chunks.filter (fun d => d.path = c.record.path) = [] := by
    intro e he hne
    rw [List.filter_eq_nil_iff]
    intro d hd
    simpa [hpath e he d hd] using hne
  have hall : c.chunks.filter (fun d => d.path = c.record.path) = c.chunks :=
    List.filter_eq_self.mpr fun d hd => by simpa using hpath c hc d hd
  rw [List.filter_flatMap]
  induction cuts with
  | nil => cases hc
  | cons e cuts ih =>
      rw [List.map_cons, List.nodup_cons] at hnodup
      have hrest := fun hc => ih hnodup.2 (fun f hf => hpath f (List.mem_cons_of_mem e hf)) hc
        fun f hf => hown f (List.mem_cons_of_mem e hf)
      rw [List.flatMap_cons]
      rcases List.mem_cons.mp hc with rfl | hc
      · have hnone : cuts.flatMap (fun f => f.chunks.filter fun d => d.path = c.record.path) = [] :=
          List.flatMap_eq_nil_iff.mpr fun f hf => hown f (List.mem_cons_of_mem c hf) fun hsame =>
            hnodup.1 (hsame ▸ List.mem_map_of_mem hf)
        rw [hnone, hall, List.append_nil]
      · have hne : e.record.path ≠ c.record.path := fun hsame =>
          hnodup.1 (hsame ▸ List.mem_map_of_mem hc)
        rw [hown e List.mem_cons_self hne, List.nil_append]
        exact hrest hc

/-- The chunks of cut files of different paths have different ids, if those of each file do and ids
tell files apart. -/
theorem nodup_ids {cuts : List CutFile} (hnodup : (cuts.map fun c => c.record.path).Nodup)
    (hpath : ∀ c ∈ cuts, ∀ d ∈ c.chunks, d.path = c.record.path)
    (hown : ∀ c ∈ cuts, (c.chunks.map Chunk.id).Nodup)
    (hids : ∀ d ∈ cuts.flatMap CutFile.chunks, ∀ e ∈ cuts.flatMap CutFile.chunks,
      d.id = e.id → d.path = e.path) :
    ((cuts.flatMap CutFile.chunks).map Chunk.id).Nodup := by
  rw [List.map_flatMap, List.nodup_flatMap]
  refine ⟨hown, (List.pairwise_map.mp hnodup).imp_of_mem fun {a b} ha hb hne => ?_⟩
  intro id hida hidb
  obtain ⟨d, hd, rfl⟩ := List.mem_map.mp hida
  obtain ⟨e, he, hsame⟩ := List.mem_map.mp hidb
  have hde := hids d (List.mem_flatMap.mpr ⟨a, ha, hd⟩) e (List.mem_flatMap.mpr ⟨b, hb, he⟩) hsame.symm
  rw [hpath a ha d hd, hpath b hb e he] at hde
  exact hne hde

end CutFile

/-! ## Fresh contents -/

/-- The records and chunks of an index are those of texts: the files have different normal paths,
record and chunks of each file are those of one text, and every chunk belongs to a file. -/
structure Fresh (parse : Chunk.Parse) (texts : Set String) (limits : ChunkLimits)
    (files : List FileRecord) (chunks : List Chunk) : Prop where
  nodup : (files.map FileRecord.path).Nodup
  normal : ∀ f ∈ files, f.path.IsNormal
  cut : ∀ f ∈ files, ∃ text ∈ texts,
    f = (CutFile.ofText parse limits f.path text).record ∧
      ((chunks.filter fun c => c.path = f.path).map Chunk.bare).Perm
        (CutFile.ofText parse limits f.path text).chunks
  recorded : ∀ c ∈ chunks, ∃ f ∈ files, f.path = c.path

namespace Fresh

variable {parse : Chunk.Parse} {texts : Set String} {limits : ChunkLimits}
  {files files' : List FileRecord} {chunks chunks' : List Chunk}

/-- Contents put together from fresh files are fresh. -/
theorem ofCuts {cuts : List CutFile} (hfresh : ∀ c ∈ cuts, c.IsFresh parse texts limits)
    (hnormal : ∀ c ∈ cuts, c.record.path.IsNormal)
    (hnodup : (cuts.map fun c => c.record.path).Nodup)
    (hfiles : files.Perm (cuts.map CutFile.record)) :
    Fresh parse texts limits files (cuts.flatMap CutFile.chunks) where
  nodup := by
    rw [(hfiles.map FileRecord.path).nodup_iff, List.map_map]
    exact hnodup
  normal f hf := by
    obtain ⟨c, hc, rfl⟩ := List.mem_map.mp (hfiles.mem_iff.mp hf)
    exact hnormal c hc
  cut f hf := by
    obtain ⟨c, hc, rfl⟩ := List.mem_map.mp (hfiles.mem_iff.mp hf)
    obtain ⟨text, htext, hrecord, hperm⟩ := hfresh c hc
    refine ⟨text, htext, hrecord, ?_⟩
    rw [CutFile.filter_flatMap hnodup (fun e he => (hfresh e he).path_eq) hc]
    exact hperm
  recorded d hd := by
    obtain ⟨c, hc, hd⟩ := List.mem_flatMap.mp hd
    exact ⟨c.record, hfiles.mem_iff.mpr (List.mem_map_of_mem hc), ((hfresh c hc).path_eq d hd).symm⟩

/-- Vectors do not matter. -/
theorem of_map_bare (h : Fresh parse texts limits files chunks)
    (hbare : chunks'.map Chunk.bare = chunks.map Chunk.bare) :
    Fresh parse texts limits files chunks' where
  nodup := h.nodup
  normal := h.normal
  cut f hf := by
    have hfilter : ∀ cs : List Chunk, (cs.filter fun c => c.path = f.path).map Chunk.bare =
        (cs.map Chunk.bare).filter fun c => c.path = f.path := by
      intro cs
      rw [List.filter_map]
      rfl
    rw [hfilter, hbare, ← hfilter]
    exact h.cut f hf
  recorded := Chunk.recorded_of_map_bare h.recorded hbare

/-- A record is determined by its path and its digest. -/
theorem eq_of_contentHash (h : Fresh parse texts limits files chunks)
    (h' : Fresh parse texts limits files' chunks') (hinj : Set.InjOn Digest.ofText texts)
    {f f' : FileRecord} (hf : f ∈ files) (hf' : f' ∈ files') (hpath : f.path = f'.path)
    (hhash : f.contentHash = f'.contentHash) :
    f = f' ∧ ((chunks.filter fun c => c.path = f.path).map Chunk.bare).Perm
      ((chunks'.filter fun c => c.path = f'.path).map Chunk.bare) := by
  obtain ⟨text, htext, hrecord, hperm⟩ := h.cut f hf
  obtain ⟨text', htext', hrecord', hperm'⟩ := h'.cut f' hf'
  have hdigest : Digest.ofText text = Digest.ofText text' := by
    rw [hrecord, hrecord'] at hhash
    exact hhash
  obtain rfl := hinj htext htext' hdigest
  rw [← hpath] at hrecord' hperm'
  refine ⟨hrecord.trans hrecord'.symm, ?_⟩
  rw [← hpath]
  exact hperm.trans hperm'.symm

/-- The chunks, file by file. -/
theorem perm_flatMap (h : Fresh parse texts limits files chunks) :
    chunks.Perm (files.flatMap fun f => chunks.filter fun c => c.path = f.path) := by
  have hgroups : ∀ (paths : List Path) (cs : List Chunk), paths.Nodup → (∀ c ∈ cs, c.path ∈ paths) →
      cs.Perm (paths.flatMap fun p => cs.filter fun c => c.path = p) := by
    intro paths
    induction paths with
    | nil =>
        intro cs _ hcs
        have hnil : cs = [] :=
          List.eq_nil_iff_forall_not_mem.mpr fun c hc => by simpa using hcs c hc
        rw [hnil]
        exact List.Perm.refl _
    | cons p paths ih =>
        intro cs hnodup hcs
        obtain ⟨hp, hnodup⟩ := List.nodup_cons.mp hnodup
        -- the chunks of other paths form groups by themselves
        have hothers := ih (cs.filter fun c => !decide (c.path = p)) hnodup fun c hc => by
          obtain ⟨hc, hne⟩ := List.mem_filter.mp hc
          rcases List.mem_cons.mp (hcs c hc) with hcp | hcp
          · simp [hcp] at hne
          · exact hcp
        have hsame : (paths.flatMap fun q =>
            (cs.filter fun c => !decide (c.path = p)).filter fun c => c.path = q) =
              paths.flatMap fun q => cs.filter fun c => c.path = q := by
          refine List.flatMap_congr fun q hq => ?_
          rw [List.filter_filter]
          refine List.filter_congr fun c _ => ?_
          by_cases hcq : c.path = q
          · have hqp : q ≠ p := fun hqp => hp (hqp ▸ hq)
            simp [hcq, hqp]
          · simp [hcq]
        rw [hsame] at hothers
        rw [List.flatMap_cons]
        exact (List.filter_append_perm (fun c => decide (c.path = p)) cs).symm.trans
          (hothers.append_left _)
  have hfiles := hgroups (files.map FileRecord.path) chunks h.nodup fun c hc => by
    obtain ⟨f, hf, hpath⟩ := h.recorded c hc
    exact List.mem_map.mpr ⟨f, hf, hpath⟩
  rwa [List.flatMap_map] at hfiles

/-- Fresh contents with the same digests at the same paths are the same, but for vectors and
order. -/
theorem perm (h : Fresh parse texts limits files chunks)
    (h' : Fresh parse texts limits files' chunks') (hinj : Set.InjOn Digest.ofText texts)
    (hsame : ∀ p hash, (∃ f ∈ files, f.path = p ∧ f.contentHash = hash) ↔
      ∃ f ∈ files', f.path = p ∧ f.contentHash = hash) :
    files.Perm files' ∧ (chunks.map Chunk.bare).Perm (chunks'.map Chunk.bare) := by
  have hmem : ∀ f, f ∈ files ↔ f ∈ files' := by
    intro f
    constructor
    · intro hf
      obtain ⟨f', hf', hpath, hhash⟩ := (hsame f.path f.contentHash).mp ⟨f, hf, rfl, rfl⟩
      rw [(h.eq_of_contentHash h' hinj hf hf' hpath.symm hhash.symm).1]
      exact hf'
    · intro hf
      obtain ⟨f', hf', hpath, hhash⟩ := (hsame f.path f.contentHash).mpr ⟨f, hf, rfl, rfl⟩
      rw [(h'.eq_of_contentHash h hinj hf hf' hpath.symm hhash.symm).1]
      exact hf'
  have hfiles : files.Perm files' :=
    (List.perm_ext_iff_of_nodup (List.Nodup.of_map _ h.nodup) (List.Nodup.of_map _ h'.nodup)).mpr hmem
  refine ⟨hfiles, ?_⟩
  have hgroups : ((files.flatMap fun f => chunks.filter fun c => c.path = f.path).map Chunk.bare).Perm
      ((files'.flatMap fun f => chunks'.filter fun c => c.path = f.path).map Chunk.bare) := by
    rw [List.map_flatMap, List.map_flatMap]
    refine hfiles.flatMap fun f hf => ?_
    exact (h.eq_of_contentHash h' hinj hf ((hmem f).mp hf) rfl rfl).2
  exact ((h.perm_flatMap.map _).trans hgroups).trans (h'.perm_flatMap.map _).symm

end Fresh

end SourceIndex
