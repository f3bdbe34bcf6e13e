import Mathlib
import SourceIndex.Chunk.Window

/-! # Windows of lines in closed form

Cutting lines into windows ends after `ChunkLimits.windowCount` windows, and the window with index
`i` begins `i` steps after the first line (`Chunk.windowsFrom_eq`). A step is no longer than a
window, so every line is in the range of one (`ChunkLimits.exists_window`). This holds for limits that
make no sense, too: a window has a line at least, and so has a step.
-/

set_option autoImplicit false

namespace SourceIndex

/-! ## Counting windows -/

namespace ChunkLimits

variable (l : ChunkLimits) {count : Nat}

/-- How many windows there are of `count` lines: the last one is the first that reaches the end. -/
def windowCount (count : Nat) : Nat :=
  if count = 0 then 0 else (count - l.window + l.step - 1) / l.step + 1

theorem window_pos : 0 < l.window := by
  unfold window
  omega

/-- Without this there would be lines between two windows. -/
theorem step_le_window : l.step ≤ l.window := by
  have hpos := l.window_pos
  unfold step
  omega

theorem lt_windowCount_iff (i count : Nat) :
    i < l.windowCount count ↔ 0 < count ∧ i * l.step < count - l.window + l.step := by
  have hstep := l.step_pos
  unfold windowCount
  by_cases hcount : count = 0
  · simp [hcount]
  · rw [if_neg hcount, Nat.lt_succ_iff, Nat.le_div_iff_mul_le hstep]
    omega

theorem windowCount_of_le (hpos : 0 < count) (h : count ≤ l.window) : l.windowCount count = 1 := by
  have hstep := l.step_pos
  have hzero : count - l.window + l.step - 1 = l.step - 1 := by omega
  rw [windowCount, if_neg (by omega), hzero, Nat.div_eq_of_lt (by omega)]

/-- Where the first window does not reach the end, the others are those of the lines after the first
step. -/
theorem windowCount_of_lt (h : l.window < count) :
    l.windowCount count = l.windowCount (count - l.step) + 1 := by
  have hstep := l.step_pos
  have hle := l.step_le_window
  refine eq_of_forall_lt_iff fun i => ?_
  cases i with
  | zero =>
    simp only [lt_windowCount_iff, Nat.succ_pos, iff_true]
    omega
  | succ i =>
    rw [Nat.succ_lt_succ_iff, lt_windowCount_iff, lt_windowCount_iff, Nat.succ_mul]
    -- past the first window, the next one begins beyond a step
    rcases Nat.eq_zero_or_pos i with rfl | hi
    · omega
    · have hmul : l.step ≤ i * l.step := Nat.le_mul_of_pos_left _ hi
      omega

/-- There are no more windows than lines. -/
theorem windowCount_le (count : Nat) : l.windowCount count ≤ count := by
  by_contra hlt
  have hstep := l.step_pos
  have hwindow := l.window_pos
  obtain ⟨hpos, hmul⟩ := (l.lt_windowCount_iff count count).mp (Nat.lt_of_not_le hlt)
  have hbound : count - 1 + l.step ≤ count * l.step := by
    calc count - 1 + l.step
        ≤ (count - 1) * l.step + l.step := Nat.add_le_add_right (Nat.le_mul_of_pos_right _ hstep) _
      _ = (count - 1 + 1) * l.step := (Nat.succ_mul _ _).symm
      _ = count * l.step := by rw [Nat.sub_add_cancel hpos]
  omega

/-- Each line is in the range of a window: the first one that reaches it. -/
theorem exists_window {row : Nat} (h : row < count) :
    ∃ i < l.windowCount count, i * l.step ≤ row ∧ row < i * l.step + l.window := by
  have hstep := l.step_pos
  have hle := l.step_le_window
  by_cases hfirst : row < l.window
  · exact ⟨0, (l.lt_windowCount_iff 0 count).mpr (by omega), by omega, by omega⟩
  · have hbelow : (row - l.window) / l.step * l.step ≤ row - l.window := Nat.div_mul_le_self _ _
    have habove : row - l.window < (row - l.window) / l.step * l.step + l.step :=
      Nat.lt_div_mul_add hstep
    refine ⟨(row - l.window) / l.step + 1, (l.lt_windowCount_iff _ _).mpr ⟨by omega, ?_⟩, ?_, ?_⟩ <;>
      rw [Nat.succ_mul] <;> omega

end ChunkLimits

/-! ## The windows -/

namespace Chunk

/-- The windows in closed form. -/
theorem windowsFrom_eq (limits : ChunkLimits) (start : Nat) (ls : List String) :
    windowsFrom limits start ls = (List.range (limits.windowCount ls.length)).map fun i =>
      (start + i * limits.step, (ls.drop (i * limits.step)).take limits.window) := by
  induction start, ls using windowsFrom.induct limits with
  | case1 start => simp [windowsFrom, ChunkLimits.windowCount]
  | case2 start l ls ih =>
    rw [windowsFrom]
    by_cases hlast : (l :: ls).length ≤ limits.window
    · rw [if_pos hlast, limits.windowCount_of_le (by simp) hlast]
      simp
    · have hrest : ((l :: ls).drop limits.step).length = (l :: ls).length - limits.step :=
        List.length_drop
      have hcount : limits.windowCount (l :: ls).length =
          limits.windowCount ((l :: ls).length - limits.step) + 1 :=
        limits.windowCount_of_lt (Nat.lt_of_not_le hlast)
      rw [if_neg hlast, ih, hcount, hrest, List.range_succ_eq_map, List.map_cons, List.map_map,
        Nat.zero_mul, Nat.add_zero, List.drop_zero]
      refine congrArg _ (List.map_congr_left fun i _ => ?_)
      have hindex : limits.step + i * limits.step = (i + 1) * limits.step := by ring
      show (_, _) = (_, _)
      rw [List.drop_drop, Nat.add_assoc, hindex]

end Chunk

end SourceIndex
