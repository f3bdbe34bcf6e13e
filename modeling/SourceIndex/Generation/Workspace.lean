import SourceIndex.Generation.Directory

set_option autoImplicit false

/-! # Workspaces

A workspace is what all handles on a project share: the files, the locks that builds hold, and
the generations that readers hold.

A generation that was replaced is retired: its file goes away as soon as no reader holds the
generation. A reader keeps what it read at the time it was opened.

* `Workspace.lock`, `Workspace.unlock`: the lock of a build.
* `Generation.openAt`, `Generation.reader`: a generation and its store.
* `Workspace.hold`, `Workspace.retire`, `Workspace.release`: when files of generations go away.
-/

namespace SourceIndex

/-- A finished generation that was opened. -/
structure Generation where
  /-- Tells apart several openings of one file. -/
  token : Nat
  id : Nat
  path : Path
  facts : BuildFacts
  deriving DecidableEq, Repr, Inhabited

namespace Generation

/-- A generation opened from its file. -/
def openAt (t : FileTree) (token id : Nat) (path : Path) : Except Fault Generation :=
  match openStore t path "failed to read index metadata" "metadata" with
  | .error f => .error f
  | .ok store =>
    match store.readFacts with
    | .error f => .error f.fault
    | .ok facts => .ok { token, id, path, facts }

/-- The store of a generation, read for some purpose. -/
def reader (g : Generation) (t : FileTree) (purpose table : String) : Except Fault Store :=
  openStore t g.path purpose table

/-- Whether a fault came from the file of a generation going away. -/
def vanished (g : Generation) (t : FileTree) : Fault → Bool
  | .store _ => !t.holds g.path
  | _ => false

end Generation

/-- The files of a project and what its handles share. -/
structure Workspace where
  tree : FileTree
  /-- The lock files that are held, by their names. -/
  locked : List (List String) := []
  /-- The generations that readers hold, once for each reader. -/
  readers : List Generation := []
  /-- The generations to remove when the last reader lets go. -/
  retired : List Generation := []
  /-- The token of the next generation to be opened. -/
  nextToken : Nat := 0
  deriving Inhabited

namespace Workspace

/-! ## Locks -/

/-- Tries to take the build lock of a directory, which is made if it is missing. The answer says
whether the lock was free. -/
def lock (w : Workspace) (d : IndexDirectory) : Workspace × Except Obstacle Bool :=
  match w.tree.makeDirectory d.path with
  | .error o => (w, .error o)
  | .ok tree =>
    let w := { w with tree }
    let path := d.entry IndexDirectory.lockName
    match tree.locate path with
    | .ok names =>
      if tree.hasDirectory names then (w, .error .isDirectory)
      else if w.locked.contains names then (w, .ok false)
      else ({ w with locked := names :: w.locked }, .ok true)
    | .error _ =>
      match tree.write path (.file .empty) with
      | .error o => (w, .error o)
      | .ok tree =>
        match tree.locate path with
        | .error o => (w, .error o)
        | .ok names =>
          ({ w with tree, locked := names :: w.locked.filter (· ≠ names) }, .ok true)

/-- The workspace with the build lock of a directory free. -/
def unlock (w : Workspace) (d : IndexDirectory) : Workspace :=
  match w.tree.locate (d.entry IndexDirectory.lockName) with
  | .ok names => { w with locked := w.locked.filter (· ≠ names) }
  | .error _ => w

/-! ## Generations -/

/-- Opens a generation under a fresh token. -/
def openGeneration (w : Workspace) (id : Nat) (path : Path) :
    Except Fault (Workspace × Generation) :=
  match Generation.openAt w.tree w.nextToken id path with
  | .ok g => .ok ({ w with nextToken := w.nextToken + 1 }, g)
  | .error f => .error f

/-- Whether a reader holds a generation. -/
def isHeld (w : Workspace) (g : Generation) : Bool := w.readers.any fun r => r.token = g.token

/-- A reader takes hold of a generation. -/
def hold (w : Workspace) (g : Generation) : Workspace := { w with readers := g :: w.readers }

/-- A generation was replaced: its file goes away, at once or when its last reader lets go. -/
def retire (w : Workspace) (g : Generation) : Workspace :=
  if w.isHeld g then { w with retired := g :: w.retired }
  else { w with tree := removeStore w.tree g.path }

/-- The list without the first reader of a generation. -/
def eraseReader (g : Generation) : List Generation → List Generation
  | [] => []
  | r :: rest => if r.token = g.token then rest else r :: eraseReader g rest

/-- A reader lets go of a generation. -/
def release (w : Workspace) (g : Generation) : Workspace :=
  let w := { w with readers := eraseReader g w.readers }
  if !w.isHeld g && w.retired.any (fun r => r.token = g.token) then
    { w with
      retired := w.retired.filter fun r => r.token ≠ g.token
      tree := removeStore w.tree g.path }
  else w

end Workspace

end SourceIndex
