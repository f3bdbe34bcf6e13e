import SourceIndex.Files.Listing
import SourceIndex.Path.Map

set_option autoImplicit false

/-! # What a build reads

A build without hints reads every file that is listed. With hints it reads the files that are
hinted at, a directory standing for the listed files under it, and carries over every other
file of the previous generation unread.

* `ReadPlan.make`: what is read and what is carried over.
-/

namespace SourceIndex

/-- What a build reads, and which earlier files it carries over unread. -/
structure ReadPlan where
  read : List Path
  carry : PathSet
  deriving Inhabited

namespace ReadPlan

/-- A hint as a path relative to the root; there is none for a path outside of it. -/
def relativeHint (root hint : Path) : Option Path :=
  if hint.isAbsolute then hint.below? root else some hint

/-- The hints that count: those inside the project that are not ignored. -/
def usefulHints (root : Path) (o : WalkOptions) (hints : List Path) : List Path :=
  (hints.filterMap (relativeHint root)).filter fun h => h.text ≠ "" && !o.isIgnored h

/-- The set with the files that a hint stands for. -/
def addHint (t : FileTree) (root : Path) (o : WalkOptions) (set : PathSet) (hint : Path) :
    Except Fault PathSet :=
  if t.isDirectory (root.join hint) then
    match Listing.files t root o with
    | .ok listed => .ok (set.union (listed.filter (·.isUnder hint)))
    | .error f => .error f
  else .ok (set.add hint)

/-- The set with the files that hints stand for. -/
def addHints (t : FileTree) (root : Path) (o : WalkOptions) :
    PathSet → List Path → Except Fault PathSet
  | set, [] => .ok set
  | set, h :: rest =>
    match addHint t root o set h with
    | .ok set => addHints t root o set rest
    | .error f => .error f

/-- Whether a path equals a hint or lies under one. -/
def isHinted (hints : List Path) (path : Path) : Bool := hints.any fun h => path.isUnder h

/-- The plan of a build that follows hints. -/
def ofHints (t : FileTree) (root : Path) (o : WalkOptions) (earlier hints : List Path) :
    Except Fault ReadPlan :=
  let hints := usefulHints root o hints
  match addHints t root o .empty hints with
  | .error f => .error f
  | .ok set =>
    .ok { read := set.paths, carry := .ofPaths (earlier.filter fun p => !isHinted hints p) }

/-- The plan of a build, given the paths of the previous generation and the hints if there are
any. -/
def make (t : FileTree) (root : Path) (o : WalkOptions) (earlier : Option (List Path))
    (hints : Option (List Path)) : Except Fault ReadPlan :=
  match earlier, hints with
  | some earlier, some hints => ofHints t root o earlier hints
  | _, _ =>
    match Listing.files t root o with
    | .ok listed => .ok { read := listed, carry := .empty }
    | .error f => .error f

end ReadPlan

end SourceIndex
