import SourceIndex.Files.Change
import SourceIndex.Project.Basic
import SourceIndex.Watch.Debouncer
import SourceIndex.Watch.Queue

set_option autoImplicit false

/-! # Watching a project

A watcher turns events on files into rebuilds. Events that do not matter to the index are
dropped, the others wait until their files are quiet, and then go into the queue. A request that
was taken from the queue goes back if another build was running; it is given up after any other
failure, and a cancelled rebuild ends the watch.

* `EventFilter.relevant?`: which events matter.
* `Watcher.observe`, `Watcher.tick`: what happens on an event, and as time passes.
* `Watcher.take`, `Watcher.settle`: a rebuild begins and ends.
* `Watcher.serve`: one rebuild from beginning to end.
-/

namespace SourceIndex

/-- Decides which events matter to an index. -/
structure EventFilter where
  /-- The directory of the sources. -/
  root : Path
  /-- The directory of the index. -/
  directory : Path
  walk : WalkOptions
  deriving Inhabited

namespace EventFilter

/-- The filter of a project. -/
def ofProject (p : Project) : EventFilter where
  root := p.root
  directory := p.directory.path
  walk := .ofSettings p.settings.index

/-- The path relative to the root on which an event matters. -/
def relevant? (f : EventFilter) (path : Path) : Option Path :=
  if path.isUnder f.directory then none
  else
    (path.below? f.root).bind fun relative =>
      if relative.text = "" || f.walk.isIgnored relative then none else some relative

end EventFilter

/-- How a rebuild ended. -/
inductive RebuildOutcome where
  | done
  /-- Another build was running. -/
  | busy
  | cancelled
  | failed
  deriving DecidableEq, Repr, Inhabited

/-- How a rebuild with some answer ended. -/
def RebuildOutcome.ofAnswer {α : Type} : Except Fault α → RebuildOutcome
  | .ok _ => .done
  | .error (.buildInProgress _) => .busy
  | .error (.cancelled _) => .cancelled
  | .error _ => .failed

/-- The state of a watch. -/
structure Watcher where
  filter : EventFilter
  debouncer : Debouncer
  queue : RebuildQueue
  /-- The request that is being built. -/
  building : Option RebuildRequest
  /-- Whether the watch has ended. -/
  stopped : Bool
  deriving Inhabited

namespace Watcher

/-- The watch of a project, whose root must be there. -/
def start (t : FileTree) (p : Project) : Except Fault Watcher :=
  if t.holds p.root then
    .ok {
      filter := .ofProject p
      debouncer := .make p.settings.sync.debounceMilliseconds p.settings.sync.maxBatch
      queue := {}
      building := none
      stopped := false }
  else .error (.watch (p.root.text ++ ": no path was found"))

/-- The files that are quiet go into the queue. -/
def tick (s : Watcher) (now : Nat) : Watcher :=
  let (ready, debouncer) := s.debouncer.takeReady now
  { s with debouncer, queue := s.queue.enqueue ready }

/-- An event on some paths. If the root is gone the watch ends. -/
def observe (s : Watcher) (paths : List Path) (now : Nat) (rootExists : Bool) : Watcher :=
  if s.stopped then s
  else if !rootExists then { s with stopped := true }
  else
    { s with
      debouncer := (paths.filterMap s.filter.relevant?).foldl (·.record · now) s.debouncer }.tick
        now

/-- The pending request is taken from the queue, unless something is being built. -/
def take (s : Watcher) : Watcher :=
  match s.building with
  | some _ => s
  | none =>
    if s.stopped then s
    else
      let (request, queue) := s.queue.take
      { s with queue, building := request }

/-- The request that was being built has ended. -/
def settle (s : Watcher) (outcome : RebuildOutcome) : Watcher :=
  match s.building with
  | none => s
  | some request =>
    let s := { s with building := none }
    match outcome with
    | .done | .failed => s
    | .busy => { s with queue := s.queue.requeue request }
    | .cancelled => { s with stopped := true }

/-- Builds what is pending, if anything is, and says how that ended. -/
def serve (s : Watcher) (w : Workspace) (p : Project) (parse : Chunk.Parse) (o : BuildOptions) :
    Watcher × Workspace × Project × Option RebuildOutcome :=
  let s := s.take
  match s.building with
  | none => (s, w, p, none)
  | some request =>
    let step := p.build w parse (.incremental request.hints?) o
    let outcome := RebuildOutcome.ofAnswer step.answer
    (s.settle outcome, step.workspace, step.project, some outcome)

end Watcher

end SourceIndex
