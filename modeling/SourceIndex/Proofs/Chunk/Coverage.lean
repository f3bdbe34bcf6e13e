import Mathlib
import SourceIndex.Proofs.Chunk.Own
import SourceIndex.Proofs.Text.Blank

/-! # Line windows cover a file

The windows of a file lie at their places in its lines (`Chunk.IsWindow`). Each of them begins and
ends after the one before it, neighbours share the overlap, and a window that is left out is blank,
so lines that are not blank stay in one (`Chunk.windows_cover`). A file that is cut into windows has
chunks unless its text is blank.
-/

set_option autoImplicit false

namespace SourceIndex

/-! ## Windows by their index -/

namespace Chunk

/-- The chunk is the window with index `i` of the lines of a file: it begins `i` steps after the
first line, ends with the last line of the window or of the file, and has the text of its lines,
which are not all blank. -/
structure IsWindow (limits : ChunkLimits) (lines : List String) (i : Nat) (c : Chunk) : Prop where
  index_lt : i < limits.windowCount lines.length
  startLine_eq : c.startLine = 1 + i * limits.step
  endLine_eq : c.endLine = min (i * limits.step + limits.window) lines.length
  start_le : c.startLine ≤ c.endLine
  length_le : c.endLine + 1 - c.startLine ≤ limits.window
  hasText : c.HasText lines
  not_blank : Text.isBlankText c.content = false

variable {limits : ChunkLimits} {lines : List String} {i j : Nat} {c e : Chunk}

/-- A window before another begins before it and ends before it. -/
theorem IsWindow.lt (hc : c.IsWindow limits lines i) (he : e.IsWindow limits lines j) (hij : i < j) :
    c.startLine < e.startLine ∧ c.endLine < e.endLine := by
  have hstep := limits.step_pos
  have hmul : i * limits.step + limits.step ≤ j * limits.step := by
    rw [← Nat.succ_mul]
    exact Nat.mul_le_mul_right _ hij
  -- the earlier window does not reach the end of the file
  have hlater := ((limits.lt_windowCount_iff _ _).mp he.index_lt).2
  rw [hc.startLine_eq, he.startLine_eq, hc.endLine_eq, he.endLine_eq]
  omega

/-- Windows that follow one another have the overlap in common, if it is shorter than a window. -/
theorem IsWindow.card_shared (hc : c.IsWindow limits lines i) (he : e.IsWindow limits lines (i + 1))
    (hoverlap : limits.windowOverlap < limits.windowLines) :
    (Finset.Icc c.startLine c.endLine ∩ Finset.Icc e.startLine e.endLine).card =
      limits.windowOverlap := by
  have hwindow : limits.window = limits.windowLines := by
    unfold ChunkLimits.window
    omega
  have hstep : limits.step = limits.windowLines - limits.windowOverlap := by
    unfold ChunkLimits.step
    omega
  have hlater := ((limits.lt_windowCount_iff _ _).mp he.index_lt).2
  obtain ⟨hstart, hend⟩ := hc.lt he (Nat.lt_succ_self i)
  have hshared : Finset.Icc c.startLine c.endLine ∩ Finset.Icc e.startLine e.endLine =
      Finset.Icc e.startLine c.endLine := by
    ext n
    simp only [Finset.mem_inter, Finset.mem_Icc]
    omega
  have hmul : (i + 1) * limits.step = i * limits.step + limits.step := Nat.succ_mul _ _
  rw [hshared, Nat.card_Icc, he.startLine_eq, hc.endLine_eq]
  omega

theorem isWindow_of_ofWindow? {file : SourceFile} (hindex : i < limits.windowCount lines.length)
    (h : ofWindow? file (i * limits.step)
      ((lines.drop (i * limits.step)).take limits.window) = some c) :
    c.IsWindow limits lines i := by
  obtain ⟨hpos, hlt⟩ := (limits.lt_windowCount_iff _ _).mp hindex
  have hwindow := limits.window_pos
  have hle := limits.step_le_window
  have hlength : ((lines.drop (i * limits.step)).take limits.window).length =
      min limits.window (lines.length - i * limits.step) := by
    rw [List.length_take, List.length_drop]
  simp only [ofWindow?, Option.ite_none_left_eq_some] at h
  obtain ⟨hblank, hc⟩ := h
  obtain rfl := Option.some.inj hc
  have hbegins : i * limits.step < lines.length := by
    by_contra hge
    -- there is nothing in a window beyond the last line
    rw [List.drop_eq_nil_of_le (by omega), List.take_nil] at hblank
    exact hblank (by decide)
  refine ⟨hindex, Nat.add_comm _ _, ?_, ?_, ?_, ?_, eq_false_of_ne_true hblank⟩
  · show i * limits.step + List.length _ = _
    rw [hlength]
    omega
  · show i * limits.step + 1 ≤ i * limits.step + List.length _
    rw [hlength]
    omega
  · show i * limits.step + List.length _ + 1 - (i * limits.step + 1) ≤ _
    rw [hlength]
    omega
  · show Text.unlines _ = Text.unlines ((lines.drop (i * limits.step + 1 - 1)).take
      (i * limits.step + List.length _ + 1 - (i * limits.step + 1)))
    rw [hlength, Nat.add_sub_cancel, show i * limits.step + min limits.window
      (lines.length - i * limits.step) + 1 - (i * limits.step + 1) =
        min limits.window (lines.length - i * limits.step) by omega,
      ← List.length_drop, ← List.take_eq_take_min]

/-! ## Files -/

theorem windows_eq (file : SourceFile) (limits : ChunkLimits) :
    windows file limits =
      (List.range (limits.windowCount (Text.lines file.content).length)).filterMap fun i =>
        ofWindow? file (i * limits.step)
          (((Text.lines file.content).drop (i * limits.step)).take limits.window) := by
  rw [windows, windowsFrom_eq, List.filterMap_map]
  refine List.filterMap_congr fun i _ => ?_
  rw [Function.comp_apply, Nat.zero_add]

theorem exists_index {file : SourceFile} (h : c ∈ windows file limits) :
    ∃ i, c.IsWindow limits (Text.lines file.content) i := by
  rw [windows_eq] at h
  obtain ⟨i, hi, hc⟩ := List.mem_filterMap.mp h
  exact ⟨i, isWindow_of_ofWindow? (List.mem_range.mp hi) hc⟩

theorem pairwise_windows_lt (file : SourceFile) (limits : ChunkLimits) :
    (windows file limits).Pairwise fun c e =>
      c.startLine < e.startLine ∧ c.endLine < e.endLine := by
  rw [windows_eq, List.pairwise_filterMap]
  refine (List.pairwise_lt_range).imp_of_mem fun {i j} hi hj hij c hc e he => ?_
  have hfirst := isWindow_of_ofWindow? (List.mem_range.mp hi) hc
  exact hfirst.lt (isWindow_of_ofWindow? (List.mem_range.mp hj) he) hij

/-- A line that is not blank is in a window. -/
theorem exists_window_holds {file : SourceFile} {line : String} {row : Nat}
    (hline : (Text.lines file.content)[row]? = some line) (hblank : Text.isBlankText line = false) :
    ∃ c ∈ windows file limits, c.Holds (row + 1) := by
  obtain ⟨hrow, -⟩ := List.getElem?_eq_some_iff.mp hline
  obtain ⟨i, hi, hle, hlt⟩ := limits.exists_window hrow
  -- the line is among those of the window, so the window is not blank
  have hmem : line ∈ ((Text.lines file.content).drop (i * limits.step)).take limits.window := by
    refine List.mem_of_getElem? (i := row - i * limits.step) ?_
    rw [List.getElem?_take_of_lt (by omega), List.getElem?_drop, Nat.add_sub_cancel' hle, hline]
  have hshown : Text.isBlankText (Text.unlines
      (((Text.lines file.content).drop (i * limits.step)).take limits.window)) = false := by
    rw [Text.isBlankText_unlines, List.all_eq_false]
    exact ⟨line, hmem, by simp [hblank]⟩
  obtain ⟨c, hc⟩ : ∃ c, ofWindow? file (i * limits.step)
      (((Text.lines file.content).drop (i * limits.step)).take limits.window) = some c := by
    simp [ofWindow?, hshown]
  have hwindow := isWindow_of_ofWindow? hi hc
  refine ⟨c, ?_, ?_⟩
  · rw [windows_eq]
    exact List.mem_filterMap.mpr ⟨i, List.mem_range.mpr hi, hc⟩
  · have hstart := hwindow.startLine_eq
    have hend := hwindow.endLine_eq
    unfold Holds
    omega

/-- Chunks that are windows of the lines of a file and leave out none that is not blank. -/
structure CutInto (limits : ChunkLimits) (lines : List String) (ws : List Chunk) : Prop where
  placed : ∀ c ∈ ws, ∃ i, c.IsWindow limits lines i
  increasing : ws.Pairwise fun c e => c.startLine < e.startLine ∧ c.endLine < e.endLine
  covers : ∀ row line, lines[row]? = some line → Text.isBlankText line = false →
    ∃ c ∈ ws, c.Holds (row + 1)
  shares : limits.windowOverlap < limits.windowLines → ∀ i, ∀ c ∈ ws, ∀ e ∈ ws,
    c.IsWindow limits lines i → e.IsWindow limits lines (i + 1) →
      (Finset.Icc c.startLine c.endLine ∩ Finset.Icc e.startLine e.endLine).card =
        limits.windowOverlap

/-- Cutting the lines of a file into windows ends after `windowCount` of them, no more than there
are lines. What is left of them without the blank ones covers the file: the windows are in their
places, each begins and ends after the one before it, neighbours share the overlap, and every line
that is not blank is in a window. So a file without a grammar or a tree has chunks unless it is
blank. -/
theorem windows_cover (file : SourceFile) (limits : ChunkLimits) :
    let lines := Text.lines file.content
    (windowsFrom limits 0 lines).length = limits.windowCount lines.length ∧
      limits.windowCount lines.length ≤ lines.length ∧
      CutInto limits lines (windows file limits) ∧
      ∀ parse : Parse, Text.isBlankText file.content = false →
        Rules.ofLanguage? file.language = none ∨ parse file.language file.content = none →
          (ofFile parse file limits).chunks = windows file limits ∧ windows file limits ≠ [] := by
  intro lines
  refine ⟨?_, limits.windowCount_le _, ?_, ?_⟩
  · rw [windowsFrom_eq, List.length_map, List.length_range]
  · constructor
    · intro c hc
      exact exists_index hc
    · exact pairwise_windows_lt file limits
    · intro row line hline hblank
      exact exists_window_holds hline hblank
    · intro hoverlap i c _ e _ hc he
      exact hc.card_shared he hoverlap
  · intro parse hblank hnone
    constructor
    · rw [ofFile, hblank]
      rcases hnone with hrules | hparse
      · simp [hrules]
      · cases hrules : Rules.ofLanguage? file.language with
        | none => simp
        | some rules => simp [hparse]
    · -- a line that is not blank is in a window
      obtain ⟨line, hline, hshown⟩ := Text.exists_line_of_not_blank hblank
      obtain ⟨row, hrow⟩ := List.getElem?_of_mem hline
      obtain ⟨c, hc, -⟩ : ∃ c ∈ windows file limits, c.Holds (row + 1) :=
        exists_window_holds hrow hshown
      exact List.ne_nil_of_mem hc

/-- Notes of five lines, one of them blank. -/
def smallNotes : SourceFile := .ofText ⟨"notes.md"⟩ .markdown "one\ntwo\nthree\n\nfour\n"

/-- The notes in windows of three lines, of which the next one has the last. -/
theorem windows_cover_smallNotes :
    ∃ ws, windows smallNotes ⟨9, 1, 3, 1⟩ = ws ∧ ws.map lineRange = [(1, 3), (3, 5)] ∧
      CutInto ⟨9, 1, 3, 1⟩ (Text.lines smallNotes.content) ws ∧
      Text.isBlankText smallNotes.content = false ∧
      Rules.ofLanguage? smallNotes.language = none ∧
      (ofFile (fun _ _ => none) smallNotes ⟨9, 1, 3, 1⟩).chunks = ws ∧ ws ≠ [] := by
  have hblank : Text.isBlankText smallNotes.content = false := by decide +kernel
  obtain ⟨-, -, hcut, hchunks⟩ := windows_cover smallNotes ⟨9, 1, 3, 1⟩
  exact ⟨_, rfl, by decide +kernel, hcut, hblank, rfl, hchunks (fun _ _ => none) hblank (.inl rfl)⟩

end Chunk

end SourceIndex
