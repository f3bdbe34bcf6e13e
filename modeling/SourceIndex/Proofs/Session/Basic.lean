import Mathlib
import SourceIndex.Proofs.Generation.Shelf
import SourceIndex.Proofs.Project.Answers

/-! # Sessions

Several handles work with one index at the same time. A build is not one step then: between two of
its stages (`Stage`) other handles answer questions, and readers come and go. What a stage does is
what `Project.build` does there; without interference the stages together are a build
(`Project.build_eq_advance`). The same goes for a handle that looks for a newer generation: it opens
one, and later takes it over unless it has got a newer one meanwhile (`Project.refresh_eq_take`).

A session (`Session.Run`) is any interleaving of such steps. The only thing that keeps builds apart
is the build lock. A build that is stopped on its way holds the lock until it has removed its file.
-/

set_option autoImplicit false

namespace SourceIndex

open IndexDirectory

-- names of files are not to be computed
attribute [local irreducible] nameOf journalName removeStore Project.buildLocked

/-! ## Builds in stages -/

/-- What is asked of a build. -/
structure BuildRequest where
  parse : Chunk.Parse
  mode : BuildMode
  options : BuildOptions

/-- How far a build has come. -/
inductive Stage where
  /-- It has the lock. -/
  | locked
  /-- Its handle has looked for a newer generation. -/
  | looked
  /-- The contents of the new generation are known. -/
  | prepared (id : Nat) (contents : Prepared) (asked : List String)
  /-- The new generation has a file. -/
  | created (id : Nat) (contents : Prepared) (asked : List String)
  /-- The file has the contents. -/
  | filled (id : Nat) (built : Project.Built)
  /-- The new generation was opened from its file. -/
  | opened (g : Generation) (built : Project.Built)
  /-- The new generation is in use, and the one it replaces is to be retired. -/
  | installed (previous : Option Generation) (built : Project.Built)
  /-- The build has failed, and its file is to be removed. -/
  | undoing (id : Nat) (f : Fault)
  /-- The build has ended, and the lock is to be released. -/
  | ended (answer : Except Fault Project.Built)

/-- Where a build goes on that is stopped. Once the pointer is set, it cannot be stopped any more. -/
def Stage.stopped (f : Fault) : Stage → Option Stage
  | .locked | .looked | .prepared _ _ _ => some (.ended (.error f))
  | .created id _ _ | .filled id _ => some (.undoing id f)
  | .opened g _ => some (.undoing g.id f)
  | .installed _ _ | .undoing _ _ | .ended _ => none

/-- A build under way. -/
structure Work where
  request : BuildRequest
  /-- The tree in which it took the lock. -/
  origin : FileTree
  /-- The generation that it starts from, as soon as its contents are prepared. -/
  base : Option BuildBase := none
  stage : Stage := .locked

/-- What a build does next. -/
def Work.advance (w : Workspace) (p : Project) (k : Work) : Workspace × Project × Work :=
  match k.stage with
  | .locked =>
    let (w, p) := p.refresh w
    (w, p, { k with stage := .looked })
  | .looked =>
    match p.directory.nextId w.tree with
    | .error f => (w, p, { k with stage := .ended (.error f) })
    | .ok id =>
      match Project.baseOf w k.request.mode p.current with
      | .error f => (w, p, { k with stage := .ended (.error f) })
      | .ok base =>
        match Project.prepare w.tree (p.context k.request.parse) k.request.options k.request.mode
          base with
        | .error f => (w, p, { k with base, stage := .ended (.error f) })
        | .ok (contents, asked) => (w, p, { k with base, stage := .prepared id contents asked })
  | .prepared id contents asked =>
    match p.directory.create w.tree id .empty with
    | .error f =>
      ({ w with tree := p.directory.leftover w.tree id }, p, { k with stage := .ended (.error f) })
    | .ok tree => ({ w with tree }, p, { k with stage := .created id contents asked })
  | .created id contents asked =>
    let facts := contents.facts (p.context k.request.parse) k.request.options id
    match Project.fill w.tree (p.directory.fileFor id) k.request.options contents facts with
    | .error f => (w, p, { k with stage := .undoing id f })
    | .ok tree =>
      ({ w with tree }, p,
        { k with stage := .filled id { report := .ofPrepared contents facts, asked } })
  | .filled id built =>
    match w.openGeneration id (p.directory.fileFor id) with
    | .error f => (w, p, { k with stage := .undoing id f })
    | .ok (w, g) => (w, p, { k with stage := .opened g built })
  | .opened g built =>
    match p.directory.writeCurrent w.tree g.id with
    | (tree, .error o) => ({ w with tree }, p, { k with stage := .undoing g.id o.fault })
    | (tree, .ok ()) =>
      ({ w with tree }, { p with current := some g },
        { k with stage := .installed p.current built })
  | .installed previous built =>
    (Project.retired w previous, p, { k with stage := .ended (.ok built) })
  | .undoing id f =>
    ({ w with tree := removeStore w.tree (p.directory.fileFor id) }, p,
      { k with stage := .ended (.error f) })
  | .ended _ => (w, p, k)

/-- The ways a build can go on: one for each stage and for each fault that a stage can meet with. -/
inductive Work.Moves (w : Workspace) (p : Project) (k : Work) : Workspace × Project × Work → Prop where
  | looks : k.stage = .locked →
      Moves w p k ((p.refresh w).1, (p.refresh w).2, { k with stage := .looked })
  | givesUp {base f} : k.stage = .looked →
      Moves w p k (w, p, { k with base, stage := .ended (.error f) })
  | prepares {id base contents asked} : k.stage = .looked →
      p.directory.nextId w.tree = .ok id →
      Project.baseOf w k.request.mode p.current = .ok base →
      Project.prepare w.tree (p.context k.request.parse) k.request.options k.request.mode base =
        .ok (contents, asked) →
      Moves w p k (w, p, { k with base, stage := .prepared id contents asked })
  | failsToCreate {id contents asked f} : k.stage = .prepared id contents asked →
      p.directory.create w.tree id .empty = .error f →
      Moves w p k ({ w with tree := p.directory.leftover w.tree id }, p,
        { k with stage := .ended (.error f) })
  | creates {id contents asked tree} : k.stage = .prepared id contents asked →
      p.directory.create w.tree id .empty = .ok tree →
      Moves w p k ({ w with tree }, p, { k with stage := .created id contents asked })
  | failsToFill {id contents asked f} : k.stage = .created id contents asked →
      Moves w p k (w, p, { k with stage := .undoing id f })
  | fills {id contents asked facts tree} : k.stage = .created id contents asked →
      contents.facts (p.context k.request.parse) k.request.options id = facts →
      Project.fill w.tree (p.directory.fileFor id) k.request.options contents facts = .ok tree →
      Moves w p k ({ w with tree }, p,
        { k with stage := .filled id { report := .ofPrepared contents facts, asked } })
  | failsToOpen {id built f} : k.stage = .filled id built →
      Moves w p k (w, p, { k with stage := .undoing id f })
  | opens {id built w' g} : k.stage = .filled id built →
      w.openGeneration id (p.directory.fileFor id) = .ok (w', g) →
      Moves w p k (w', p, { k with stage := .opened g built })
  | failsToInstall {g built tree o} : k.stage = .opened g built →
      p.directory.writeCurrent w.tree g.id = (tree, .error o) →
      Moves w p k ({ w with tree }, p, { k with stage := .undoing g.id o.fault })
  | installs {g built tree} : k.stage = .opened g built →
      p.directory.writeCurrent w.tree g.id = (tree, .ok ()) →
      Moves w p k ({ w with tree }, { p with current := some g },
        { k with stage := .installed p.current built })
  | retires {previous built} : k.stage = .installed previous built →
      Moves w p k (Project.retired w previous, p, { k with stage := .ended (.ok built) })
  | undoes {id f} : k.stage = .undoing id f →
      Moves w p k ({ w with tree := removeStore w.tree (p.directory.fileFor id) }, p,
        { k with stage := .ended (.error f) })
  | rests {answer} : k.stage = .ended answer → Moves w p k (w, p, k)

/-- A build goes on in one of these ways. -/
theorem Work.moves (w : Workspace) (p : Project) (k : Work) : k.Moves w p (k.advance w p) := by
  rw [advance]
  cases hstage : k.stage with
  | locked => exact .looks hstage
  | looked =>
      dsimp only
      cases hid : p.directory.nextId w.tree with
      | error f => exact .givesUp hstage
      | ok id =>
          dsimp only
          cases hbase : Project.baseOf w k.request.mode p.current with
          | error f => exact .givesUp hstage
          | ok base =>
              dsimp only
              cases hprepare : Project.prepare w.tree (p.context k.request.parse) k.request.options
                k.request.mode base with
              | error f => exact .givesUp hstage
              | ok made => exact .prepares hstage hid hbase hprepare
  | prepared id contents asked =>
      dsimp only
      cases hcreate : p.directory.create w.tree id .empty with
      | error f => exact .failsToCreate hstage hcreate
      | ok tree => exact .creates hstage hcreate
  | created id contents asked =>
      dsimp only
      cases hfill : Project.fill w.tree (p.directory.fileFor id) k.request.options contents
        (contents.facts (p.context k.request.parse) k.request.options id) with
      | error f => exact .failsToFill hstage
      | ok tree => exact .fills hstage rfl hfill
  | filled id built =>
      dsimp only
      cases hopen : w.openGeneration id (p.directory.fileFor id) with
      | error f => exact .failsToOpen hstage
      | ok opened => exact .opens hstage hopen
  | opened g built =>
      dsimp only
      cases hwrite : p.directory.writeCurrent w.tree g.id with
      | mk tree answer =>
          cases answer with
          | error o => exact .failsToInstall hstage hwrite
          | ok _ => exact .installs hstage hwrite
  | installed previous built => exact .retires hstage
  | undoing id f => exact .undoes hstage
  | ended answer => exact .rests hstage

theorem Work.advance_directory (w : Workspace) (p : Project) (k : Work) :
    (k.advance w p).2.1.directory = p.directory := by
  have hmoves := k.moves w p
  generalize k.advance w p = next at hmoves ⊢
  cases hmoves with
  | looks => exact Project.refresh_directory w p
  | _ => rfl

namespace Project

variable {w : Workspace} {p : Project} {parse : Chunk.Parse} {mode : BuildMode} {o : BuildOptions}

/-- A build from one stage on, until it has ended. -/
def proceed : Nat → Workspace × Project × Work → Workspace × Project × Work
  | 0, at_ => at_
  | n + 1, (w, p, k) => proceed n (k.advance w p)

theorem proceed_directory (n : Nat) (w : Workspace) (p : Project) (k : Work) :
    (proceed n (w, p, k)).2.1.directory = p.directory := by
  induction n generalizing w p k with
  | zero => rfl
  | succ n ih =>
      rw [proceed]
      have hdirectory := k.advance_directory w p
      generalize k.advance w p = next at hdirectory ⊢
      obtain ⟨w', p', k'⟩ := next
      exact (ih w' p' k').trans hdirectory

/-- The build has ended like a step does. -/
def EndsAs (result : Workspace × Project × Work) (step : Step Built) : Prop :=
  result.1 = step.workspace ∧ result.2.1 = step.project ∧
    result.2.2.stage = .ended step.answer

theorem proceed_ended {k : Work} {answer : Except Fault Built} (h : k.stage = .ended answer)
    (n : Nat) : EndsAs (proceed n (w, p, k)) { workspace := w, project := p, answer } := by
  induction n with
  | zero => exact ⟨rfl, rfl, h⟩
  | succ n ih =>
      rw [proceed, Work.advance, h]
      exact ih

theorem proceed_undoing {k : Work} {id : Nat} {f : Fault} (h : k.stage = .undoing id f) (n : Nat) :
    EndsAs (proceed (n + 1) (w, p, k))
      { workspace := { w with tree := removeStore w.tree (p.directory.fileFor id) }
        project := p, answer := .error f } := by
  rw [proceed, Work.advance, h]
  exact proceed_ended rfl n

/-- Installing a generation that was opened, as stages. -/
theorem proceed_opened {k : Work} {g : Generation} {built : Built}
    (h : k.stage = .opened g built) (hpath : g.path = p.directory.fileFor g.id) :
    EndsAs (proceed 2 (w, p, k))
      { install w p g with answer := (install w p g).answer.map fun _ => built } := by
  rw [proceed, Work.advance, h]
  dsimp only
  cases hpointer : p.directory.writeCurrent w.tree g.id with
  | mk t answer =>
      cases answer with
      | error o =>
          rw [install_error hpointer, hpath]
          exact proceed_undoing rfl 0
      | ok _ =>
          rw [install_ok hpointer]
          exact ⟨rfl, rfl, rfl⟩

/-- Opening a generation and installing it, as stages. -/
theorem proceed_filled {k : Work} {id : Nat} {built : Built} (h : k.stage = .filled id built) :
    EndsAs (proceed 3 (w, p, k)) (finish w p id built) := by
  rw [proceed, Work.advance, h]
  dsimp only
  unfold finish
  dsimp only
  cases hopen : w.openGeneration id (p.directory.fileFor id) with
  | error f =>
      dsimp only
      exact proceed_undoing rfl 1
  | ok opened =>
      obtain ⟨w', g⟩ := opened
      obtain ⟨-, hid, hpath⟩ := Workspace.opened_eq hopen
      dsimp only
      rw [← hid] at hpath
      exact proceed_opened rfl hpath

/-- A build under the lock, as stages. -/
theorem proceed_locked {origin : FileTree} :
    EndsAs (proceed 7 (w, p, { request := ⟨parse, mode, o⟩, origin }))
      (buildLocked w p parse mode o) := by
  unfold buildLocked makeNext
  rw [proceed, Work.advance]
  generalize p.refresh w = r
  obtain ⟨w, p⟩ := r
  dsimp only
  rw [proceed, Work.advance]
  dsimp only
  cases hid : p.directory.nextId w.tree with
  | error f => refine proceed_ended ?_ 5; rfl
  | ok id =>
      dsimp only
      cases hbase : baseOf w mode p.current with
      | error f => refine proceed_ended ?_ 5; rfl
      | ok base =>
          dsimp only
          rw [write]
          cases hprepare : prepare w.tree (p.context parse) o mode base with
          | error f => refine proceed_ended ?_ 5; rfl
          | ok made =>
              obtain ⟨contents, asked⟩ := made
              dsimp only
              rw [proceed, Work.advance]
              dsimp only
              cases hcreate : p.directory.create w.tree id .empty with
              | error f => refine proceed_ended ?_ 4; rfl
              | ok created =>
                  dsimp only
                  rw [proceed, Work.advance]
                  dsimp only
                  cases hfill : fill created (p.directory.fileFor id) o contents
                    (contents.facts (p.context parse) o id) with
                  | error f => exact proceed_undoing rfl 2
                  | ok filled => exact proceed_filled rfl

-- what the stages do is not to be computed at once
attribute [local irreducible] proceed

/-- A build takes the lock, goes through its stages, and releases the lock. -/
theorem build_eq_advance (parse : Chunk.Parse) (mode : BuildMode) (o : BuildOptions)
    (h : (w.lock p.directory).2 = .ok true) :
    ∃ result answer, result = proceed 7 ((w.lock p.directory).1, p,
        { request := ⟨parse, mode, o⟩, origin := (w.lock p.directory).1.tree }) ∧
      result.2.2.stage = .ended answer ∧
      build w p parse mode o =
        { workspace := result.1.unlock p.directory, project := result.2.1, answer } := by
  obtain ⟨hworkspace, hproject, hstage⟩ : EndsAs (proceed 7 ((w.lock p.directory).1, p,
      { request := ⟨parse, mode, o⟩, origin := (w.lock p.directory).1.tree }))
      (buildLocked (w.lock p.directory).1 p parse mode o) := proceed_locked
  refine ⟨_, _, rfl, hstage, ?_⟩
  rw [build_of_locked h, hworkspace, hproject]

/-- The handle with a generation that was opened for it, unless it has got a newer one. -/
def take (p : Project) (g : Generation) : Project :=
  match p.current with
  | some held => if g.id ≤ held.id then p else { p with current := some g }
  | none => { p with current := some g }

/-- A handle that looks for a newer generation opens it, and takes it over. -/
theorem refresh_eq_take (w : Workspace) (p : Project) :
    p.refresh w =
      match p.directory.readCurrent w.tree with
      | .error _ | .ok none => (w, p)
      | .ok (some id) =>
        if p.current.map Generation.id = some id then (w, p)
        else
          match w.openGeneration id (p.directory.fileFor id) with
          | .error _ => (w, p)
          | .ok (w, g) => (w, p.take g) := by
  rw [refresh]
  cases p.directory.readCurrent w.tree with
  | error f => rfl
  | ok current =>
      cases current with
      | none => rfl
      | some id =>
          dsimp only
          split
          · rfl
          · cases w.openGeneration id (p.directory.fileFor id) with
            | error f => rfl
            | ok opened =>
                dsimp only
                rw [take]
                cases p.current with
                | none => rfl
                | some held =>
                    dsimp only
                    split <;> rfl

end Project

/-! ## Handles that work side by side -/

/-- A handle in a session. -/
structure Client where
  project : Project
  /-- The build that it runs. -/
  work : Option Work := none
  /-- The generations that were opened for it, to be taken over. -/
  found : List Generation := []

/-- Some handles on one index. -/
structure Session where
  workspace : Workspace
  client : Nat → Option Client
  /-- The numbers of the generations that were put into use, the last one first, each with the store
  that it had then. -/
  installed : List (Nat × Store)

/-- Where the index of a session lies, and whether handles come and go: otherwise there is one only. -/
structure Venue where
  home : List String
  shared : Prop

/-- The store in the file of a generation. -/
def storeIn (home : List String) (t : FileTree) (id : Nat) : Store :=
  match t.item? (home ++ [nameOf id]) with
  | some (.index store) => store
  | _ => .empty

theorem Shelf.IsAt.storeIn_eq {home : List String} {t : FileTree} {s : Shelf} {id : Nat}
    {store : Store} (h : s.IsAt t home) (hstore : s.store id = some store) :
    storeIn home t id = store := by
  rw [storeIn, h.files, hstore]
  rfl

namespace Session

/-- A session with another state of one handle. -/
def update (s : Session) (n : Nat) (w : Workspace) (c : Option Client) : Session :=
  { s with workspace := w, client := Function.update s.client n c }

/-- A session in which the build of one handle has done its next step. -/
def advance (home : List String) (s : Session) (n : Nat) (c : Client) (k : Work) : Session :=
  let (w, p, next) := k.advance s.workspace c.project
  let installed :=
    match k.stage, next.stage with
    | .opened g _, .installed _ _ => (g.id, storeIn home w.tree g.id) :: s.installed
    | _, _ => s.installed
  { s.update n w (some { c with project := p, work := some next }) with installed }

/-- The steps of a session. -/
inductive Step (venue : Venue) : Session → Session → Prop where
  /-- Another handle is opened. -/
  | opening {s n w root settings model p} : venue.shared → s.client n = none →
      Project.openAt s.workspace root settings model = (w, .ok p) →
      p.directory.LiesAt s.workspace.tree venue.home →
      Step venue s (s.update n w (some { project := p }))
  /-- Another handle is there and does not hold a generation yet: while someone builds, a handle is
  opened without clearing anything away, and it may come too late for the generation in use. -/
  | arriving {s n p} : venue.shared → s.client n = none → p.current = none →
      p.directory.LiesAt s.workspace.tree venue.home →
      Step venue s (s.update n s.workspace (some { project := p }))
  /-- A handle that is not building goes away. -/
  | closing {s n c} : venue.shared → s.client n = some c → c.work = none →
      Step venue s (s.update n s.workspace none)
  /-- A handle is asked something. -/
  | asking {s n c} (q : Project.Query) : s.client n = some c →
      Step venue s (s.update n (q.put s.workspace c.project).1
        (some { c with project := (q.put s.workspace c.project).2.1 }))
  /-- A generation that is or was in use is opened for a handle. -/
  | finding {s n c id store w g} : s.client n = some c → (id, store) ∈ s.installed →
      s.workspace.openGeneration id (c.project.directory.fileFor id) = .ok (w, g) →
      Step venue s (s.update n w (some { c with found := g :: c.found }))
  /-- The handle takes it over. -/
  | taking {s n c g} : s.client n = some c → g ∈ c.found →
      Step venue s (s.update n s.workspace (some { c with project := c.project.take g }))
  /-- A handle begins to build: it has got the lock. -/
  | beginning {s n c w} (request : BuildRequest) : s.client n = some c → c.work = none →
      s.workspace.lock c.project.directory = (w, .ok true) →
      Step venue s (s.update n w (some { c with work := some { request, origin := w.tree } }))
  /-- A build is refused, since the lock is not to be had. -/
  | refusing {s n c} : s.client n = some c →
      (s.workspace.lock c.project.directory).2 ≠ .ok true →
      Step venue s (s.update n (s.workspace.lock c.project.directory).1 (some c))
  /-- A build does its next step. -/
  | advancing {s n c k} : s.client n = some c → c.work = some k →
      Step venue s (s.advance venue.home n c k)
  /-- A build is stopped. -/
  | stopping {s n c k f stage} : s.client n = some c → c.work = some k →
      k.stage.stopped f = some stage →
      Step venue s (s.update n s.workspace (some { c with work := some { k with stage } }))
  /-- A build that has ended releases the lock. -/
  | ending {s n c k answer} : s.client n = some c → c.work = some k → k.stage = .ended answer →
      Step venue s (s.update n (s.workspace.unlock c.project.directory)
        (some { c with work := none }))
  /-- A reader takes hold of the generation of a handle. -/
  | holding {s n c g} : s.client n = some c → c.project.current = some g →
      Step venue s { s with workspace := s.workspace.hold g }
  /-- A reader lets go. -/
  | releasing {s g} : g ∈ s.workspace.readers →
      Step venue s { s with workspace := s.workspace.release g }
  /-- Files change outside of the index. -/
  | elsewhere {s tree} : tree.WellFormed →
      (∀ d : IndexDirectory, d.LiesAt s.workspace.tree venue.home → d.LiesAt tree venue.home) →
      (∀ name, tree.item? (venue.home ++ [name]) =
        s.workspace.tree.item? (venue.home ++ [name])) →
      Step venue s { s with workspace := { s.workspace with tree } }

/-- A session that begins with one handle. -/
def first (home : List String) (w : Workspace) (p : Project) : Session where
  workspace := w
  client := fun n => if n = 0 then some { project := p } else none
  installed := (p.current.map fun g => (g.id, storeIn home w.tree g.id)).toList

/-- The sessions on a directory. They begin with a handle that is opened, when nobody else works there:
the generation in use can be opened, if there is one, and the others are left over. -/
inductive Run (venue : Venue) : Session → Prop where
  | start {w w' root settings model p tree} {shelf : Shelf} :
      Project.openAt w root settings model = (w', .ok p) →
      w.tree.makeDirectory p.directory.path = .ok tree →
      p.directory.LiesAt tree venue.home → shelf.IsAt tree venue.home →
      (∀ id, shelf.current = some id → ∃ store facts, shelf.store id = some store ∧
        store.facts = some facts ∧ facts.schema = Store.schemaVersion) →
      venue.home ++ [lockName] ∉ w.locked → w.readers = [] → w.retired = [] →
      Run venue (first venue.home w' p)
  | step {s s'} : Run venue s → Step venue s s' → Run venue s'

/-- No build is under way. -/
def Quiet (s : Session) : Prop := ∀ n c, s.client n = some c → c.work = none

end Session

end SourceIndex
