import SourceIndex.Path.Map

set_option autoImplicit false

/-! # Quiet periods

Events on a file are held back until the file has been quiet for a while, so that a burst of
events counts once. When many files wait, none of them is held back any longer.

Times are numbers of milliseconds from a common start; a time before the last event of a file
counts as that of the event.
-/

namespace SourceIndex

/-- Files with events that are held back. -/
structure Debouncer where
  /-- How long a file has to be quiet. -/
  window : Nat
  /-- How many waiting files are enough to let all go. -/
  maxBatch : Nat
  /-- The time of the last event of each file. -/
  pending : PathMap Nat
  deriving Inhabited

namespace Debouncer

/-- A debouncer without waiting files; its batches hold at least one. -/
def make (window maxBatch : Nat) : Debouncer := ⟨window, max 1 maxBatch, .empty⟩

/-- The quiet period of a file begins anew. -/
def record (d : Debouncer) (path : Path) (now : Nat) : Debouncer :=
  { d with pending := d.pending.insert path now }

/-- Whether no file is waiting. -/
def isEmpty (d : Debouncer) : Bool := d.pending.isEmpty

/-- When the first waiting file will have been quiet for long enough. -/
def nextDeadline (d : Debouncer) : Option Nat :=
  (d.pending.entries.map (·.2)).min?.map (· + d.window)

/-- Whether a file whose last event was at a time has been quiet for long enough. -/
def isQuiet (d : Debouncer) (now last : Nat) : Bool := decide (d.window ≤ now - last)

/-- The files that need not wait any longer, and the debouncer without them. -/
def takeReady (d : Debouncer) (now : Nat) : List Path × Debouncer :=
  if d.maxBatch ≤ d.pending.size then (d.pending.keys, { d with pending := .empty })
  else
    let (ready, waiting) := d.pending.entries.partition fun e => d.isQuiet now e.2
    (ready.map (·.1), { d with pending := ⟨waiting⟩ })

end Debouncer

end SourceIndex
