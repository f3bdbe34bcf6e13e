import SourceIndex.Path.Map

set_option autoImplicit false

/-! # Pending rebuilds

At most one rebuild is pending at a time; a request that comes before it is taken is merged into
it. When a merge leaves more paths than are worth listing, everything is looked at instead.
-/

namespace SourceIndex

/-- What the next rebuild has to look at. -/
inductive RebuildRequest where
  /-- These paths. -/
  | paths (set : PathSet)
  /-- Everything. -/
  | all
  deriving Inhabited

namespace RebuildRequest

/-- How many paths a merged request lists at most. -/
def capacity : Nat := 4096

/-- A request with more paths. -/
def extend (request : RebuildRequest) (paths : List Path) : RebuildRequest :=
  match request with
  | .all => .all
  | .paths set =>
    let set := set.union paths
    if capacity < set.size then .all else .paths set

/-- One request for what two ask. -/
def merge (request other : RebuildRequest) : RebuildRequest :=
  match other with
  | .all => .all
  | .paths set => request.extend set.paths

/-- The paths to look at, if not everything. -/
def hints? : RebuildRequest → Option (List Path)
  | .paths set => some set.paths
  | .all => none

end RebuildRequest

/-- The rebuild that is pending, if one is. -/
structure RebuildQueue where
  pending : Option RebuildRequest := none
  deriving Inhabited

namespace RebuildQueue

/-- The queue with a request merged in. -/
def requeue (q : RebuildQueue) (request : RebuildRequest) : RebuildQueue :=
  match q.pending with
  | none => ⟨some request⟩
  | some pending => ⟨some (pending.merge request)⟩

/-- The queue with a request for paths merged in; no paths ask for nothing. -/
def enqueue (q : RebuildQueue) (paths : List Path) : RebuildQueue :=
  if paths.isEmpty then q else q.requeue (.paths (.ofPaths paths))

/-- The pending request, and the queue without it. -/
def take (q : RebuildQueue) : Option RebuildRequest × RebuildQueue := (q.pending, ⟨none⟩)

end RebuildQueue

end SourceIndex
