import Mathlib
import SourceIndex.Proofs.Build.Fresh
import SourceIndex.Proofs.Chunk.Order
import SourceIndex.Proofs.Store.Insert
import SourceIndex.Proofs.Store.Rows

/-! # Chunks that come out as they went in

The chunks of a file, with vectors or without, go into any store that has none of that file and none
of their ids, and come out again in the same order with everything in them, from the rows of the
table as well (`Chunk.insert_returns`). The order is not that of the rows: it is by first line and
depth, which is how the chunks of a file are listed.
-/

set_option autoImplicit false

namespace SourceIndex

namespace Store

variable {s : Store} {record : FileRecord} {cs : List Chunk} {path : Path}

/-- Chunks with new and different ids go into a store that has a record of their file. -/
theorem addChunks_eq_ok (hrecord : ∃ f ∈ s.files, f.path = path) (hpath : ∀ c ∈ cs, c.path = path)
    (hids : (cs.map Chunk.id).Nodup) (hnew : ∀ c ∈ s.chunks, ∀ e ∈ cs, c.id ≠ e.id) :
    s.addChunks cs = .ok { s with chunks := s.chunks ++ cs } := by
  induction cs generalizing s with
  | nil => simp [addChunks]
  | cons c cs ih =>
    obtain ⟨hc, hcs⟩ := List.forall_mem_cons.mp hpath
    rw [List.map_cons, List.nodup_cons] at hids
    have hfresh : c.id ∉ s.chunks.map Chunk.id := by
      intro hmem
      obtain ⟨d, hd, hid⟩ := List.mem_map.mp hmem
      exact hnew d hd c List.mem_cons_self hid
    have hadd := (addChunk_ok_iff s _ c).mpr ⟨hfresh, hc ▸ hrecord, rfl⟩
    have hnext : ∀ d ∈ s.chunks ++ [c], ∀ e ∈ cs, d.id ≠ e.id := by
      intro d hd e he
      rcases List.mem_append.mp hd with hd | hd
      · exact hnew d hd e (List.mem_cons_of_mem c he)
      · obtain rfl := List.mem_singleton.mp hd
        exact fun hid => hids.1 (List.mem_map.mpr ⟨e, he, hid.symm⟩)
    have hrest := ih (s := { s with chunks := s.chunks ++ [c] }) hrecord hcs hids.2 hnext
    rw [addChunks, hadd]
    simpa using hrest

/-- Chunks of one file that are in order come out of a store as they went in. -/
theorem chunksOf_append (hpath : ∀ c ∈ cs, c.path = path) (hnone : ∀ c ∈ s.chunks, c.path ≠ path)
    (horder : cs.Pairwise Chunk.StandsBefore) :
    chunksOf { s with chunks := s.chunks ++ cs } path = cs := by
  have hold : s.chunks.filter (fun c => c.path = path) = [] :=
    List.filter_eq_nil_iff.mpr fun c hc => by simpa using hnone c hc
  have hall : cs.filter (fun c => c.path = path) = cs :=
    List.filter_eq_self.mpr fun c hc => by simpa using hpath c hc
  have hsorted : cs.Pairwise fun c e => placeLe c e = true := by
    refine horder.imp fun {c e} hce => ?_
    simp only [placeLe, Bool.or_eq_true, Bool.and_eq_true, decide_eq_true_eq, beq_iff_eq]
    rcases hce with hlt | ⟨heq, hdepth⟩
    · exact .inl hlt
    · exact .inr ⟨heq, hdepth.le⟩
  rw [chunksOf, List.filter_append, hold, hall, List.nil_append, List.mergeSort_of_pairwise hsorted]

/-- The chunks `cs` come out of the store as those of a file, and so they do from their rows. -/
structure Returns (s : Store) (path : Path) (cs : List Chunk) : Prop where
  chunks : s.chunksOf path = cs
  rows : s.select? path = some cs

end Store

namespace Chunk

variable {parse : Parse} {file : SourceFile} {limits : ChunkLimits} {cs : List Chunk}

/-- Chunks of a file with vectors go into a store that has none of the file, and come out again. -/
theorem insert_returns
    (hparse : ∀ root, parse file.language file.content = some root → root.WellFormed file.content)
    (hlines : (Text.lines file.content).length < UInt64.size)
    (hdigests : (ofFile parse file limits).chunks = windows file limits →
      TellApart (windows file limits))
    (hcs : cs.map bare = (ofFile parse file limits).chunks) {record : FileRecord}
    (hrecord : record.path = file.path) (s : Store) (hpath : ∀ c ∈ s.chunks, c.path ≠ file.path)
    (hids : ∀ c ∈ s.chunks, ∀ e ∈ cs, c.id ≠ e.id) :
    ∃ s', s.insert [record] cs = .ok s' ∧ s'.Returns file.path cs := by
  have hbare : ∀ c ∈ cs, c.bare ∈ (ofFile parse file limits).chunks := fun c hc =>
    hcs ▸ List.mem_map_of_mem hc
  have hof : ∀ c ∈ cs, c.path = file.path := fun c hc =>
    (emitted_ofFile parse file limits _ (hbare c hc)).1
  have hdistinct : (cs.map Chunk.id).Nodup := by
    have hnodup := nodup_ids_of_digests hdigests
    rw [← hcs, List.map_map] at hnodup
    exact hnodup
  have horder : cs.Pairwise StandsBefore := by
    have hsorted : (ofFile parse file limits).chunks.Pairwise StandsBefore :=
      pairwise_standsBefore_ofFile hparse
    rw [← hcs, List.pairwise_map] at hsorted
    exact hsorted
  let t : Store := { s with files := Store.addFile s.files record }
  have hinserted : s.insert [record] cs = .ok { t with chunks := t.chunks ++ cs } :=
    Store.addChunks_eq_ok (s := t) ⟨record, by simp [t, Store.addFile], hrecord⟩ hof hdistinct hids
  have hchunks : Store.chunksOf { t with chunks := t.chunks ++ cs } file.path = cs :=
    Store.chunksOf_append hof hpath horder
  refine ⟨_, hinserted, hchunks, ?_⟩
  rw [Store.select?_eq _ _ fun c hc hfile e he => ?_, hchunks]
  rcases List.mem_append.mp hc with hc | hc
  · exact absurd hfile (hpath c hc)
  · exact Nat.lt_of_le_of_lt (line_le_of_mem_calls hparse (hbare c hc) he) hlines

/-- The chunks of a file, whatever vectors they were given, go into any store that has no chunk of the
file and none of their ids. They come out in the same order with everything in them, from the rows
of the table as well, and so they do after they went from there into a new store. Of a vector every
bit is kept: any words are read back from their bytes. -/
theorem chunks_insert
    (hparse : ∀ root, parse file.language file.content = some root → root.WellFormed file.content)
    (hlines : (Text.lines file.content).length < UInt64.size)
    (hdigests : (ofFile parse file limits).chunks = windows file limits →
      TellApart (windows file limits))
    (hcs : cs.map bare = (ofFile parse file limits).chunks) {record : FileRecord}
    (hrecord : record.path = file.path) (s : Store) (hpath : ∀ c ∈ s.chunks, c.path ≠ file.path)
    (hids : ∀ c ∈ s.chunks, ∀ e ∈ cs, c.id ≠ e.id) :
    ∃ s', s.insert [record] cs = .ok s' ∧ s'.Returns file.path cs ∧
      (∃ s'', Store.empty.insert [record] (s'.chunksOf file.path) = .ok s'' ∧
        s''.Returns file.path cs) ∧
      ∀ words, Embedding.wordsOfBytes (Embedding.bytesOfWords words) = words := by
  obtain ⟨s', hinsert, hreturns⟩ :=
    insert_returns hparse hlines hdigests hcs hrecord s hpath hids
  obtain ⟨s'', hagain, hreturns'⟩ :=
    insert_returns hparse hlines hdigests hcs hrecord Store.empty (by simp [Store.empty])
      (by simp [Store.empty])
  exact ⟨s', hinsert, hreturns, ⟨s'', hreturns.chunks ▸ hagain, hreturns'⟩,
    Embedding.wordsOfBytes_bytesOfWords⟩

/-! ## The chunks of the small header -/

/-- A store with a chunk of another file. -/
def otherStore : Store where
  files := [⟨⟨"a.py"⟩, "python", 1, 0, "", false⟩]
  chunks := [{ make ⟨"a.py"⟩ "python" .module "x" 1 1 with id := "1" }]

/-- The chunks of the small header, each with a vector of two numbers. -/
def smallChunks : List Chunk :=
  (ofFile (fun _ _ => some smallTree) smallHeader ⟨2, 2, 5, 0⟩).chunks.map fun c =>
    { c with embedding := some [Float32.ofBits 0x3f800000, Float32.ofBits 0x80000000] }

/-- The chunks of the small header go into a store with a chunk of another file. -/
theorem chunks_insert_smallHeader :
    ∃ s', otherStore.insert [⟨⟨"point.h"⟩, "cpp", 74, 0, "", false⟩] smallChunks = .ok s' ∧
      s'.Returns ⟨"point.h"⟩ smallChunks ∧
      (smallChunks.map fun c => (c.lineRange, c.depth, c.fullPath)) =
        [((1, 4), 0, "point.geo"), ((3, 3), 1, "point.geo.Point")] := by
  have hparse : ∀ root, (fun _ _ => some smallTree : Parse) smallHeader.language
      smallHeader.content = some root → root.WellFormed smallHeader.content := by
    rintro root ⟨⟩
    exact wellFormed_smallTree
  have hdigests : TellApart (windows smallHeader ⟨2, 2, 5, 0⟩) := by
    -- there is one window only
    have hone : (windows smallHeader ⟨2, 2, 5, 0⟩).length = 1 := by decide +kernel
    obtain ⟨c, hc⟩ := List.length_eq_one_iff.mp hone
    simp [TellApart, hc]
  have hbare : smallChunks.map bare =
      (ofFile (fun _ _ => some smallTree) smallHeader ⟨2, 2, 5, 0⟩).chunks := by
    rw [smallChunks, List.map_map]
    exact (List.map_congr_left fun c hc => bare_of_emitted (emitted_ofFile _ _ _ c hc)).trans
      (List.map_id _)
  have hrecord : (⟨⟨"point.h"⟩, "cpp", 74, 0, "", false⟩ : FileRecord).path = smallHeader.path := rfl
  have hids : ∀ c ∈ otherStore.chunks, ∀ e ∈ smallChunks, c.id ≠ e.id := by decide +kernel
  obtain ⟨s', hinsert, hreturns, -⟩ := chunks_insert hparse (by decide +kernel) (fun _ => hdigests)
    hbare hrecord otherStore (by decide +kernel) hids
  exact ⟨s', hinsert, hreturns, by decide +kernel⟩

end Chunk

end SourceIndex
