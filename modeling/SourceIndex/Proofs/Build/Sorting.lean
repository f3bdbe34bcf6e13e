import Mathlib
import SourceIndex.Build.Basic
import SourceIndex.Proofs.Path.Map

/-! # Dividing what was read

What becomes of a file is decided by its own reading and by its earlier record alone: it is cut
anew (`Sorting.changed?`), its earlier chunks are retained (`Sorting.retains`), with a renewed
record if it was read (`Sorting.renewed?`), or it is dropped. The fold over all readings collects
these (`Sorting.changed_ofReadings`, `Sorting.perm_carried_foldl`, `Sorting.records_foldl_of_mem`,
`Sorting.failed_ofReadings`).
-/

set_option autoImplicit false

namespace SourceIndex

namespace Sorting

variable {earlier : PathMap FileRecord}

/-! ## One reading -/

/-- The renewed record of a file that was read and has its earlier digest. -/
def renewed? (earlier : PathMap FileRecord) (r : Reading) : Option FileRecord :=
  match r.result with
  | .ok (some file) =>
    (earlier.get? r.path).bind fun record =>
      if record.contentHash = file.contentHash then
        some { record with modified := 0, size := file.size }
      else none
  | .ok none | .error _ => none

/-- The file that is cut anew: one that was read and has no record or another digest. -/
def changed? (earlier : PathMap FileRecord) (r : Reading) : Option SourceFile :=
  match r.result with
  | .ok (some file) => if (renewed? earlier r).isSome then none else some file
  | .ok none | .error _ => none

/-- Whether a file could not be read although something is there. -/
def fails (r : Reading) : Bool :=
  match r.result with
  | .ok _ | .error .missing => false
  | .error _ => true

/-- Whether the earlier chunks of a file are retained. -/
def retains (earlier : PathMap FileRecord) (r : Reading) : Bool :=
  (renewed? earlier r).isSome || (fails r && earlier.contains r.path)

/-- The record that an earlier file has from now on, if its chunks are retained. -/
def retained? (earlier : PathMap FileRecord) (r : Reading) : Option FileRecord :=
  (renewed? earlier r).or (if fails r then earlier.get? r.path else none)

theorem isSome_retained? (earlier : PathMap FileRecord) (r : Reading) :
    (retained? earlier r).isSome = retains earlier r := by
  rw [retained?, retains, PathMap.contains_eq]
  cases renewed? earlier r <;> cases fails r <;> simp

theorem retained?_eq (earlier : PathMap FileRecord) (r : Reading) :
    retained? earlier r =
      if retains earlier r then (renewed? earlier r).or (earlier.get? r.path) else none := by
  rw [retained?, retains, PathMap.contains_eq]
  cases renewed? earlier r with
  | some record => simp
  | none => cases fails r <;> cases earlier.get? r.path <;> simp

theorem changed?_eq_some_iff (r : Reading) (file : SourceFile) :
    changed? earlier r = some file ↔ r.result = .ok (some file) ∧ renewed? earlier r = none := by
  rw [changed?]
  split
  · rename_i file' hfile
    cases hrenewed : renewed? earlier r <;> simp [hfile]
  · simp_all
  · simp_all

/-- A file whose chunks are retained is not cut anew. -/
theorem not_changed_of_retains {r : Reading} (h : retains earlier r = true) (file : SourceFile) :
    changed? earlier r ≠ some file := by
  intro hchanged
  obtain ⟨hresult, hrenewed⟩ := (changed?_eq_some_iff r file).mp hchanged
  simp [retains, hrenewed, fails, hresult] at h

theorem retained?_of_changed {r : Reading} {file : SourceFile} (h : changed? earlier r = some file) :
    retained? earlier r = none := by
  rw [← Option.not_isSome_iff_eq_none, isSome_retained?]
  exact fun hretains => not_changed_of_retains hretains file h

/-- What is retained is the earlier record, but for its size and its time. -/
theorem of_retained? {r : Reading} {record : FileRecord} (h : retained? earlier r = some record) :
    ∃ f, earlier.get? r.path = some f ∧
      record = { f with modified := record.modified, size := record.size } := by
  rcases Option.or_eq_some_iff.mp h with hrenewed | ⟨-, hfails⟩
  · rw [renewed?] at hrenewed
    split at hrenewed
    · obtain ⟨f, hf, hrenewed⟩ := Option.bind_eq_some_iff.mp hrenewed
      split at hrenewed
      · obtain rfl := Option.some.inj hrenewed
        exact ⟨f, hf, rfl⟩
      · cases hrenewed
    · cases hrenewed
    · cases hrenewed
  · split at hfails
    · exact ⟨record, hfails, rfl⟩
    · cases hfails

/-- What one reading adds. -/
theorem add_eq (earlier : PathMap FileRecord) (s : Sorting) (r : Reading) :
    add earlier s r =
      { failed := s.failed + (fails r).toNat
        changed := s.changed ++ (changed? earlier r).toList
        carried := if retains earlier r then s.carried.add r.path else s.carried
        records :=
          match renewed? earlier r with
          | some record => s.records.insert r.path record
          | none => s.records } := by
  obtain ⟨path, result⟩ := r
  cases result with
  | error o => cases o <;> simp [add, fails, retains, renewed?, changed?]
  | ok file? =>
      cases file? with
      | none => simp [add, fails, retains, renewed?, changed?]
      | some file =>
          cases hearlier : earlier.get? path with
          | none => simp [add, fails, retains, renewed?, changed?, hearlier]
          | some record =>
              by_cases hhash : record.contentHash = file.contentHash
              · simp [add, fails, retains, renewed?, changed?, hearlier, hhash]
              · simp [add, fails, retains, renewed?, changed?, hearlier, hhash]

/-! ## All readings -/

theorem changed_foldl (rs : List Reading) (s : Sorting) :
    (rs.foldl (add earlier) s).changed = s.changed ++ rs.filterMap (changed? earlier) := by
  induction rs generalizing s with
  | nil => simp
  | cons r rs ih =>
      rw [List.foldl_cons, ih, add_eq]
      cases hr : changed? earlier r <;> simp [hr]

theorem failed_foldl (rs : List Reading) (s : Sorting) :
    (rs.foldl (add earlier) s).failed = s.failed + rs.countP fails := by
  induction rs generalizing s with
  | nil => simp
  | cons r rs ih =>
      rw [List.foldl_cons, ih, add_eq]
      cases hr : fails r <;> simp [hr, Nat.add_comm, Nat.add_left_comm]

theorem records_foldl (rs : List Reading) {s : Sorting} {p : Path} {record : FileRecord}
    (h : (rs.foldl (add earlier) s).records.get? p = some record) :
    s.records.get? p = some record ∨
      ∃ r ∈ rs, r.path.parts = p.parts ∧ renewed? earlier r = some record := by
  induction rs generalizing s with
  | nil => exact Or.inl h
  | cons r rs ih =>
      rcases ih h with h | ⟨q, hq, hpath, hrecord⟩
      · rw [add_eq] at h
        dsimp only at h
        split at h
        · rename_i renewed hrenewed
          rw [PathMap.get?_insert] at h
          split at h
          · rename_i hpath
            exact Or.inr ⟨r, List.mem_cons_self, hpath, hrenewed.trans h⟩
          · exact Or.inl h
        · exact Or.inl h
      · exact Or.inr ⟨q, List.mem_cons_of_mem r hq, hpath, hrecord⟩

/-- Readings of paths that are told apart by their parts, also from those carried over before, carry
over what they retain, each under its own spelling. -/
theorem perm_carried_foldl (earlier : PathMap FileRecord) {rs : List Reading} (hrs : (rs.map fun r => r.path.parts).Nodup)
    {s : Sorting} (hs : ∀ r ∈ rs, ∀ k ∈ s.carried.keys, r.path.parts ≠ k.parts) :
    (rs.foldl (add earlier) s).carried.keys.Perm
      (s.carried.keys ++ (rs.filter (retains earlier)).map Reading.path) := by
  induction rs generalizing s with
  | nil => simp
  | cons r rs ih =>
      rw [List.map_cons, List.nodup_cons] at hrs
      have hcarried : (add earlier s r).carried =
          if retains earlier r then s.carried.add r.path else s.carried := by rw [add_eq]
      have hother : ∀ q ∈ rs, r.path.parts ≠ q.path.parts := fun q hq hparts =>
        hrs.1 (hparts ▸ List.mem_map_of_mem hq)
      have hrest : ∀ q ∈ rs, ∀ k ∈ s.carried.keys, q.path.parts ≠ k.parts := fun q hq =>
        hs q (List.mem_cons_of_mem r hq)
      rw [List.foldl_cons]
      by_cases hretains : retains earlier r = true
      · rw [if_pos hretains] at hcarried
        have hperm : (add earlier s r).carried.keys.Perm (r.path :: s.carried.keys) := by
          rw [hcarried]
          exact PathMap.perm_keys_insert () (hs r List.mem_cons_self)
        refine (ih hrs.2 fun q hq k hk => ?_).trans ?_
        · rcases List.mem_cons.mp (hperm.mem_iff.mp hk) with rfl | hk
          · exact (hother q hq).symm
          · exact hrest q hq k hk
        · rw [List.filter_cons_of_pos hretains, List.map_cons]
          exact (hperm.append_right _).trans List.perm_middle.symm
      · rw [if_neg hretains] at hcarried
        rw [List.filter_cons_of_neg hretains]
        rw [← hcarried] at hrest ⊢
        exact ih hrs.2 hrest

theorem records_foldl_of_not_mem (earlier : PathMap FileRecord) {rs : List Reading} {p : Path}
    (h : ∀ r ∈ rs, r.path.parts ≠ p.parts) (s : Sorting) :
    (rs.foldl (add earlier) s).records.get? p = s.records.get? p := by
  induction rs generalizing s with
  | nil => rfl
  | cons r rs ih =>
      rw [List.foldl_cons, ih fun q hq => h q (List.mem_cons_of_mem r hq), add_eq]
      dsimp only
      split
      · rw [PathMap.get?_insert, if_neg (h r List.mem_cons_self)]
      · rfl

/-- The renewed record of a path that was read once. -/
theorem records_foldl_of_mem (earlier : PathMap FileRecord) {rs : List Reading}
    (hrs : (rs.map fun r => r.path.parts).Nodup)
    {s : Sorting} {r : Reading} (hr : r ∈ rs) (hs : s.records.get? r.path = none) :
    (rs.foldl (add earlier) s).records.get? r.path = renewed? earlier r := by
  induction rs generalizing s with
  | nil => cases hr
  | cons q rs ih =>
      rw [List.map_cons, List.nodup_cons] at hrs
      rw [List.foldl_cons]
      rcases List.mem_cons.mp hr with rfl | hr
      · have hother : ∀ q ∈ rs, q.path.parts ≠ r.path.parts := fun q hq hparts =>
          hrs.1 (hparts ▸ List.mem_map_of_mem hq)
        rw [records_foldl_of_not_mem earlier hother, add_eq]
        dsimp only
        split
        · rename_i hrenewed
          rw [PathMap.get?_insert, if_pos rfl, hrenewed]
        · rename_i hrenewed
          rw [hs, hrenewed]
      · have hother : q.path.parts ≠ r.path.parts := fun hparts =>
          hrs.1 (hparts ▸ List.mem_map_of_mem hr)
        refine ih hrs.2 hr ?_
        rw [add_eq]
        dsimp only
        split
        · rw [PathMap.get?_insert, if_neg hother, hs]
        · exact hs

/-- The files that are cut anew. -/
theorem changed_ofReadings (earlier : PathMap FileRecord) (carry : PathSet) (rs : List Reading) :
    (ofReadings earlier carry rs).changed = rs.filterMap (changed? earlier) := by
  rw [ofReadings, changed_foldl]
  rfl

/-- How many files could not be read. -/
theorem failed_ofReadings (earlier : PathMap FileRecord) (carry : PathSet) (rs : List Reading) :
    (ofReadings earlier carry rs).failed = rs.countP fails := by
  rw [ofReadings, failed_foldl]
  exact Nat.zero_add _

/-- A renewed record comes from a reading. -/
theorem renewed_of_ofReadings {carry : PathSet} {rs : List Reading} {p : Path}
    {record : FileRecord} (h : (ofReadings earlier carry rs).records.get? p = some record) :
    ∃ r ∈ rs, r.path.parts = p.parts ∧ renewed? earlier r = some record := by
  rcases records_foldl rs h with h | h
  · cases h
  · exact h

end Sorting

end SourceIndex
