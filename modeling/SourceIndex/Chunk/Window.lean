import SourceIndex.Chunk.Basic
import SourceIndex.SourceFile

set_option autoImplicit false

/-! # Line windows

A file without a usable syntax tree is cut into windows of a fixed number of lines, each
beginning a fixed number of lines after the one before, so that neighbours overlap. Blank
windows are left out.
-/

namespace SourceIndex

/-- How a file is cut into chunks. -/
structure ChunkLimits where
  /-- A definition with more lines than this is split. -/
  maxLines : Nat
  /-- A group of statements with fewer lines than this joins a neighbour. -/
  minLines : Nat
  /-- The lines of a window. -/
  windowLines : Nat
  /-- The lines a window shares with the next one. -/
  windowOverlap : Nat
  deriving DecidableEq, Repr, Inhabited

namespace ChunkLimits

/-- The lines of a window, at least one. -/
def window (l : ChunkLimits) : Nat := max l.windowLines 1

/-- How many lines after a window the next one begins, at least one. -/
def step (l : ChunkLimits) : Nat := max (l.window - l.windowOverlap) 1

theorem step_pos (l : ChunkLimits) : 0 < l.step := by
  unfold step
  omega

end ChunkLimits

namespace Chunk

/-- The windows of lines that begin at row `start`: each window with its first
row. The last window is the first one that reaches the end. -/
def windowsFrom (limits : ChunkLimits) (start : Nat) : List String → List (Nat × List String)
  | [] => []
  | l :: ls =>
    (start, (l :: ls).take limits.window) ::
      if (l :: ls).length ≤ limits.window then []
      else windowsFrom limits (start + limits.step) ((l :: ls).drop limits.step)
termination_by ls => ls.length
decreasing_by
  have := limits.step_pos
  simp
  omega

/-- The chunk of a window, unless it is blank. -/
def ofWindow? (file : SourceFile) (start : Nat) (ls : List String) : Option Chunk :=
  let content := Text.unlines ls
  if Text.isBlankText content then none
  else
    some { make file.path file.language.id .window content (start + 1) (start + ls.length) with
      fileHash := file.contentHash }

/-- The line windows of a file. -/
def windows (file : SourceFile) (limits : ChunkLimits) : List Chunk :=
  (windowsFrom limits 0 (Text.lines file.content)).filterMap fun (start, ls) =>
    ofWindow? file start ls

end Chunk

end SourceIndex
