import SourceIndex.Path

set_option autoImplicit false

/-! # Maps and sets of paths

Entries are kept in the order of their paths, and no two of them have paths with the same
parts. Where several spellings of one path meet, it is said which of them stays.
-/

namespace SourceIndex

/-- Values by paths, in the order of the paths. -/
structure PathMap (β : Type) where
  entries : List (Path × β) := []
  deriving Inhabited

namespace PathMap

variable {β : Type}

/-- The map without entries. -/
def empty : PathMap β := ⟨[]⟩

/-- Whether there are no entries. -/
def isEmpty (m : PathMap β) : Bool := m.entries.isEmpty

/-- How many entries there are. -/
def size (m : PathMap β) : Nat := m.entries.length

/-- The paths, in order. -/
def keys (m : PathMap β) : List Path := m.entries.map (·.1)

/-- The value of a path in any spelling. -/
def get? (m : PathMap β) (path : Path) : Option β :=
  (m.entries.find? fun e => e.1.same path).map (·.2)

/-- Whether a path is there in any spelling. -/
def contains (m : PathMap β) (path : Path) : Bool := m.entries.any fun e => e.1.same path

/-- Ordered entries with a value set; a path that is there keeps its spelling. -/
def insertEntry (path : Path) (value : β) : List (Path × β) → List (Path × β)
  | [] => [(path, value)]
  | (q, v) :: rest =>
    match path.order q with
    | .lt => (path, value) :: (q, v) :: rest
    | .eq => (q, value) :: rest
    | .gt => (q, v) :: insertEntry path value rest

/-- The map with a value set; a path that is there keeps its spelling. -/
def insert (m : PathMap β) (path : Path) (value : β) : PathMap β :=
  ⟨insertEntry path value m.entries⟩

/-- The map without a path. -/
def erase (m : PathMap β) (path : Path) : PathMap β :=
  ⟨m.entries.filter fun e => !e.1.same path⟩

/-! ## Many entries at once -/

/-- Entries in the order of their paths; those with the same parts stay in their order. -/
def arrange (entries : List (Path × β)) : List (Path × β) :=
  entries.mergeSort fun a b => a.1.le b.1

/-- Of neighbouring entries with the same parts, the first. -/
def keepFirst : List (Path × β) → List (Path × β)
  | [] => []
  | e :: rest =>
    match keepFirst rest with
    | [] => [e]
    | f :: rest' => if e.1.same f.1 then e :: rest' else e :: f :: rest'

/-- Of neighbouring entries with the same parts, the last. -/
def keepLast : List (Path × β) → List (Path × β)
  | [] => []
  | e :: rest =>
    match keepLast rest with
    | [] => [e]
    | f :: rest' => if e.1.same f.1 then f :: rest' else e :: f :: rest'

/-- The map of a list of entries; of those with the same parts the last stays. -/
def ofList (entries : List (Path × β)) : PathMap β := ⟨keepLast (arrange entries)⟩

/-- The map with more entries; a path that is there keeps its entry, and of new ones with the
same parts the first stays. -/
def extend (m : PathMap β) (entries : List (Path × β)) : PathMap β :=
  ⟨keepFirst (arrange (m.entries ++ entries))⟩

end PathMap

/-- A set of paths. -/
abbrev PathSet := PathMap Unit

namespace PathSet

/-- The paths of a set, in order. -/
def paths (s : PathSet) : List Path := s.keys

/-- The set of the paths of a list; of several spellings the last stays. -/
def ofPaths (paths : List Path) : PathSet := PathMap.ofList (paths.map fun p => (p, ()))

/-- The set with one more path, unless it is there. -/
def add (s : PathSet) (path : Path) : PathSet := PathMap.insert s path ()

/-- The set with more paths; a path that is there keeps its spelling. -/
def union (s : PathSet) (paths : List Path) : PathSet :=
  PathMap.extend s (paths.map fun p => (p, ()))

end PathSet

end SourceIndex
