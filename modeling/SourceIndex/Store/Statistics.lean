import SourceIndex.Json.Fields
import SourceIndex.Store.Basic

set_option autoImplicit false

/-! # Statistics of a store

Counts of what a store holds, and how the chunks divide by language and by kind.
-/

namespace SourceIndex

/-- Counts of what a store holds. -/
structure StoreStatistics where
  chunks : Nat
  files : Nat
  /-- How many chunks have a vector. -/
  embedded : Nat
  /-- How many files could not be parsed. -/
  degraded : Nat
  /-- How many chunks each language has. -/
  languages : List (String × Nat)
  /-- How many chunks each kind has. -/
  kinds : List (String × Nat)
  deriving DecidableEq, Repr, Inhabited

/-- How often each name occurs, in the order of the names. -/
def tally (names : List String) : List (String × Nat) :=
  (names.eraseDups.mergeSort Text.le).map fun name => (name, names.count name)

/-- A tally as an object. -/
def tallyJson (counts : List (String × Nat)) : Json :=
  .obj (counts.map fun (name, n) => (name, .natural n))

namespace Store

/-- The counts of a store. -/
def statistics (s : Store) : StoreStatistics where
  chunks := s.chunks.length
  files := s.files.length
  embedded := s.chunks.countP fun c => c.embedding.isSome
  degraded := s.files.countP fun f => f.degraded
  languages := tally (s.chunks.map fun c => c.language)
  kinds := tally (s.chunks.map fun c => c.kind.id)

end Store

/-- Counts as an object. -/
def StoreStatistics.json (s : StoreStatistics) : Json :=
  .obj [("totalChunks", .natural s.chunks), ("totalFiles", .natural s.files),
    ("embeddedChunks", .natural s.embedded), ("degradedFiles", .natural s.degraded),
    ("languages", tallyJson s.languages), ("kinds", tallyJson s.kinds)]

end SourceIndex
