import Mathlib
import SourceIndex.Proofs.Path.Map
import SourceIndex.Watch.Queue

/-! # What a queue keeps

A request covers the paths that it lists, in any spelling; one for everything covers every path
(`RebuildRequest.Covers`). Merging never uncovers a path: what the pending request covered, and
what the new one covers, is covered by the merged one (`RebuildQueue.Covers.requeue`,
`RebuildQueue.covers_requeue`, `RebuildQueue.covers_enqueue`).
-/

set_option autoImplicit false

namespace SourceIndex

namespace RebuildRequest

/-- Whether a rebuild for this request looks at a path. -/
def Covers (r : RebuildRequest) (p : Path) : Prop :=
  match r with
  | .paths set => set.contains p = true
  | .all => True

variable {r other : RebuildRequest} {ps : List Path} {p q : Path}

@[simp] theorem covers_all (p : Path) : all.Covers p := trivial

@[simp] theorem covers_paths {set : PathSet} : (paths set).Covers p ↔ set.contains p = true := Iff.rfl

/-- A request with more paths covers what it covered. -/
theorem Covers.extend (h : r.Covers p) (ps : List Path) : (r.extend ps).Covers p := by
  cases r with
  | all => exact trivial
  | paths set =>
      rw [RebuildRequest.extend]
      split
      · exact trivial
      · exact PathSet.contains_union_iff.mpr (.inl h)

/-- A request with more paths covers them. -/
theorem covers_extend (hq : q ∈ ps) (hparts : q.parts = p.parts) : (r.extend ps).Covers p := by
  cases r with
  | all => exact trivial
  | paths set =>
      rw [RebuildRequest.extend]
      split
      · exact trivial
      · exact PathSet.contains_union_iff.mpr (.inr ⟨q, hq, hparts⟩)

theorem Covers.merge (h : r.Covers p) (other : RebuildRequest) : (r.merge other).Covers p := by
  cases other with
  | all => exact trivial
  | paths set => exact h.extend set.paths

theorem covers_merge (h : other.Covers p) : (r.merge other).Covers p := by
  cases other with
  | all => exact trivial
  | paths set =>
      obtain ⟨q, hq, hparts⟩ := (PathMap.contains_iff set p).mp h
      exact covers_extend hq hparts

end RebuildRequest

namespace RebuildQueue

/-- Whether a path is waiting in the queue. -/
def Covers (q : RebuildQueue) (p : Path) : Prop := ∃ r, q.pending = some r ∧ r.Covers p

variable {q : RebuildQueue} {r : RebuildRequest} {ps : List Path} {p : Path}

theorem Covers.requeue (h : q.Covers p) (r : RebuildRequest) : (q.requeue r).Covers p := by
  obtain ⟨pending, hpending, hcovers⟩ := h
  rw [RebuildQueue.requeue, hpending]
  exact ⟨_, rfl, hcovers.merge r⟩

/-- What a request covers waits once the request was put back. -/
theorem covers_requeue (h : r.Covers p) : (q.requeue r).Covers p := by
  rw [requeue]
  split
  · exact ⟨r, rfl, h⟩
  · exact ⟨_, rfl, RebuildRequest.covers_merge h⟩

theorem Covers.enqueue (h : q.Covers p) (ps : List Path) : (q.enqueue ps).Covers p := by
  rw [RebuildQueue.enqueue]
  split
  · exact h
  · exact h.requeue _

/-- Paths wait once they were put in. -/
theorem covers_enqueue (h : p ∈ ps) : (q.enqueue ps).Covers p := by
  have hne : ps.isEmpty = false := by
    rw [List.isEmpty_eq_false_iff]
    exact List.ne_nil_of_mem h
  rw [enqueue, hne, if_neg Bool.false_ne_true]
  exact covers_requeue (PathSet.contains_ofPaths_iff.mpr ⟨p, h, rfl⟩)

@[simp] theorem not_covers_empty (p : Path) : ¬ Covers {} p := by simp [Covers]

end RebuildQueue

end SourceIndex
