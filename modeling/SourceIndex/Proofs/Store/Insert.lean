import Mathlib
import SourceIndex.Store.Basic

/-! # What goes into a store

A batch goes into the empty store exactly if no two chunks have the same id and every chunk
belongs to a recorded file, and the store holds the batch then (`Store.insert_empty_ok_iff`).
-/

set_option autoImplicit false

namespace SourceIndex

namespace Store

/-- Records of different files are kept side by side. -/
theorem foldl_addFile {earlier files : List FileRecord}
    (h : ((earlier ++ files).map FileRecord.path).Nodup) :
    files.foldl addFile earlier = earlier ++ files := by
  induction files generalizing earlier with
  | nil => simp
  | cons f files ih =>
      have hfresh : ∀ g ∈ earlier, g.path ≠ f.path := by
        intro g hg hpath
        rw [List.map_append, List.nodup_append] at h
        exact h.2.2 _ (List.mem_map_of_mem hg) _ (List.mem_map_of_mem List.mem_cons_self) hpath
      have hadd : addFile earlier f = earlier ++ [f] := by
        rw [addFile, List.filter_eq_self.mpr]
        intro g hg
        simpa using hfresh g hg
      rw [List.append_cons] at h
      rw [List.foldl_cons, hadd, ih h, List.append_cons earlier f files]

theorem addChunk_ok_iff (s s' : Store) (c : Chunk) :
    s.addChunk c = .ok s' ↔ c.id ∉ s.chunks.map Chunk.id ∧ (∃ f ∈ s.files, f.path = c.path) ∧
      s' = { s with chunks := s.chunks ++ [c] } := by
  rw [addChunk]
  by_cases hid : s.chunks.any (fun d => d.id = c.id) = true
  · rw [if_pos hid]
    obtain ⟨d, hd, hdc⟩ := List.any_eq_true.mp hid
    have hmem : c.id ∈ s.chunks.map Chunk.id := List.mem_map.mpr ⟨d, hd, by simpa using hdc⟩
    simp [hmem]
  · rw [if_neg hid]
    have hmem : c.id ∉ s.chunks.map Chunk.id := by
      intro hmem
      obtain ⟨d, hd, hdc⟩ := List.mem_map.mp hmem
      exact hid (List.any_eq_true.mpr ⟨d, hd, by simpa using hdc⟩)
    by_cases hfile : s.files.any (fun f => f.path = c.path) = true
    · rw [if_pos hfile]
      simp only [List.any_eq_true, decide_eq_true_eq] at hfile
      simp only [Except.ok.injEq, hmem, not_false_eq_true, hfile, true_and]
      exact eq_comm
    · rw [if_neg hfile]
      simp only [List.any_eq_true, decide_eq_true_eq] at hfile
      simp [hfile]

/-- Chunks go in exactly if their ids are new and different and their files are recorded. -/
theorem addChunks_ok_iff {s s' : Store} (hs : (s.chunks.map Chunk.id).Nodup)
    (cs : List Chunk) :
    s.addChunks cs = .ok s' ↔ ((s.chunks ++ cs).map Chunk.id).Nodup ∧
      (∀ c ∈ cs, ∃ f ∈ s.files, f.path = c.path) ∧
      s' = { s with chunks := s.chunks ++ cs } := by
  -- each chunk goes into a store with the chunks before it, whose ids are different
  induction cs generalizing s with
  | nil =>
      simp only [addChunks, Except.ok.injEq, List.append_nil, hs, List.not_mem_nil, false_implies,
        implies_true, true_and]
      exact eq_comm
  | cons c cs ih =>
      rw [addChunks]
      constructor
      · intro h
        split at h
        · rename_i t ht
          obtain ⟨hid, hfile, rfl⟩ := (addChunk_ok_iff s t c).mp ht
          have ht : ((s.chunks ++ [c]).map Chunk.id).Nodup := by
            simpa using hs.concat hid
          obtain ⟨hids, hfiles, rfl⟩ := (ih ht).mp h
          refine ⟨by simpa using hids, ?_, by simp⟩
          intro e he
          rcases List.mem_cons.mp he with rfl | he
          · exact hfile
          · exact hfiles e he
        · cases h
      · rintro ⟨hids, hfiles, rfl⟩
        rw [List.append_cons] at hids
        have ht : ((s.chunks ++ [c]).map Chunk.id).Nodup := by
          rw [List.map_append] at hids
          exact hids.of_append_left
        have hid : c.id ∉ s.chunks.map Chunk.id := by
          intro hmem
          rw [List.map_append, List.nodup_append] at ht
          exact ht.2.2 _ hmem _ (by simp) rfl
        have hadd := (addChunk_ok_iff s _ c).mpr ⟨hid, hfiles c List.mem_cons_self, rfl⟩
        rw [hadd]
        exact (ih (s := { s with chunks := s.chunks ++ [c] }) ht).mpr
          ⟨hids, fun e he => hfiles e (List.mem_cons_of_mem c he), by simp⟩

/-- A batch goes into the empty store exactly if no two chunks have the same id and every chunk
belongs to a recorded file. -/
theorem insert_empty_ok_iff {files : List FileRecord} (hfiles : (files.map FileRecord.path).Nodup)
    (chunks : List Chunk) (s : Store) :
    empty.insert files chunks = .ok s ↔ (chunks.map Chunk.id).Nodup ∧
      (∀ c ∈ chunks, ∃ f ∈ files, f.path = c.path) ∧ s = { files, chunks } := by
  have hfold : files.foldl addFile empty.files = files := foldl_addFile (by simpa [empty] using hfiles)
  rw [insert, hfold, addChunks_ok_iff (by simp [empty])]
  simp [empty]

end Store

end SourceIndex
