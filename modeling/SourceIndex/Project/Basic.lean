import SourceIndex.Build.Basic
import SourceIndex.Files.Change
import SourceIndex.Generation.Workspace
import SourceIndex.Search.Run
import SourceIndex.Store.Statistics
import SourceIndex.Store.Written

set_option autoImplicit false

/-! # Projects

A project is a handle on a directory of sources and its index. It holds the generation it
opened last, and looks at the index directory before it answers, since other handles may have
built a newer one.

A build holds the build lock of the index directory from beginning to end. It makes its
generation current only when everything is written; a build that fails leaves the generation in
use and removes the file that it had begun.

* `Project.openAt`: a handle on a directory.
* `Project.refresh`: the handle holds the generation in use.
* `Project.build`: a new generation.
* `Project.search`, `Project.statistics`: answers from the generation in use.
-/

namespace SourceIndex

/-- A handle on a project. -/
structure Project where
  /-- The directory of the sources, links resolved. -/
  root : Path
  settings : Settings
  model : Option EmbeddingModel
  directory : IndexDirectory
  /-- The generation that was opened last. -/
  current : Option Generation

namespace Project

/-! ## Opening -/

/-- The generation in use, if it can be opened. -/
def loadCurrent (w : Workspace) (d : IndexDirectory) : Workspace × Option Generation :=
  match d.readCurrent w.tree with
  | .ok (some id) =>
    match w.openGeneration id (d.fileFor id) with
    | .ok (w, g) => (w, some g)
    | .error _ => (w, none)
  | .ok none | .error _ => (w, none)

/-- A handle on the project at a path. Files of generations that are not in use are removed
unless a build is running. -/
def openAt (w : Workspace) (root : Path) (settings : Settings) (model : Option EmbeddingModel) :
    Workspace × Except Fault Project :=
  match w.tree.locate root with
  | .error _ => (w, .error (.fileNotFound root))
  | .ok names =>
    let root := FileTree.pathOf names
    let d : IndexDirectory := ⟨settings.dataDirectory root⟩
    match w.tree.makeDirectory d.path with
    | .error o => (w, .error o.fault)
    | .ok tree =>
      let (w, free) := { w with tree }.lock d
      let (w, current) := loadCurrent w d
      let w :=
        match free with
        | .ok true =>
          { w with tree := d.sweep w.tree (current.map Generation.id) }.unlock d
        | .ok false | .error _ => w
      (w, .ok { root, settings, model, directory := d, current })

/-- The handle with the generation in use, if that is another one than it holds and can be
opened. A handle never goes back to an older generation. -/
def refresh (w : Workspace) (p : Project) : Workspace × Project :=
  match p.directory.readCurrent w.tree with
  | .error _ | .ok none => (w, p)
  | .ok (some id) =>
    if p.current.map Generation.id = some id then (w, p)
    else
      match w.openGeneration id (p.directory.fileFor id) with
      | .error _ => (w, p)
      | .ok (w, g) =>
        match p.current with
        | some held => if g.id ≤ held.id then (w, p) else (w, { p with current := some g })
        | none => (w, { p with current := some g })

/-! ## Building -/

/-- What is left after an operation, and its answer. -/
structure Step (α : Type) where
  workspace : Workspace
  project : Project
  answer : Except Fault α

/-- A finished build: its report, and the texts that the model was asked for. -/
structure Built where
  report : BuildReport
  asked : List String

/-- The generation that an incremental build starts from. -/
def baseOf (w : Workspace) (mode : BuildMode) (previous : Option Generation) :
    Except Fault (Option BuildBase) :=
  match mode, previous with
  | .incremental _, some g =>
    match g.reader w.tree "failed to prepare query" "files" with
    | .ok store => .ok (some { facts := g.facts, store })
    | .error f => .error f
  | _, _ => .ok none

/-- The hints of a build. -/
def hintsOf : BuildMode → Option (List Path)
  | .incremental hints => hints
  | .full => none

/-- The store of a new generation. -/
def storeOf (p : Prepared) (facts : BuildFacts) : Except Fault Store :=
  match Store.empty.insert p.files p.chunks with
  | .ok store => .ok (store.writeFacts facts)
  | .error f => .error f.fault

/-- The contents of a new generation, and the texts that the model was asked for. -/
def prepare (t : FileTree) (x : BuildContext) (o : BuildOptions) (mode : BuildMode)
    (base : Option BuildBase) : Except Fault (Prepared × List String) := do
  let hints := if base.isSome then hintsOf mode else none
  let p ← Prepared.make t x o base hints
  let asked := if (p.modelFor x).isSome then Prepared.missingTexts p.chunks else []
  return (← p.complete x o, asked)

/-- The tree with contents in the file of a new generation. -/
def fill (t : FileTree) (path : Path) (o : BuildOptions) (p : Prepared) (facts : BuildFacts) :
    Except Fault FileTree := do
  let store ← storeOf p facts
  o.pass .written
  match t.write path (.index store) with
  | .ok t => return t
  | .error obstacle => throw obstacle.fault

/-- A new generation in its file, not yet in use. The file goes away again if the contents cannot be
put into it. -/
def write (t : FileTree) (d : IndexDirectory) (x : BuildContext) (o : BuildOptions)
    (mode : BuildMode) (base : Option BuildBase) (id : Nat) : FileTree × Except Fault Built :=
  match prepare t x o mode base with
  | .error f => (t, .error f)
  | .ok (p, asked) =>
    let facts := p.facts x o id
    match d.create t id .empty with
    | .error f => (d.leftover t id, .error f)
    | .ok created =>
      match fill created (d.fileFor id) o p facts with
      | .error f => (removeStore created (d.fileFor id), .error f)
      | .ok filled => (filled, .ok { report := .ofPrepared p facts, asked })

/-- A generation becomes the one in use, and the one it replaces is retired. -/
def install (w : Workspace) (p : Project) (g : Generation) : Step Unit :=
  match p.directory.writeCurrent w.tree g.id with
  | (tree, .error o) =>
    { workspace := { w with tree := removeStore tree g.path }, project := p, answer := .error o.fault }
  | (tree, .ok ()) =>
    let w := { w with tree }
    let w :=
      match p.current with
      | some previous => w.retire previous
      | none => w
    { workspace := w, project := { p with current := some g }, answer := .ok () }

/-- What a build works with. -/
def context (p : Project) (parse : Chunk.Parse) : BuildContext :=
  { root := p.root, settings := p.settings, model := p.model, parse }

/-- The number of a new generation, and the tree with its file. -/
def makeNext (w : Workspace) (p : Project) (parse : Chunk.Parse) (mode : BuildMode)
    (o : BuildOptions) : FileTree × Except Fault (Nat × Built) :=
  match p.directory.nextId w.tree with
  | .error f => (w.tree, .error f)
  | .ok id =>
    match baseOf w mode p.current with
    | .error f => (w.tree, .error f)
    | .ok base =>
      let (tree, made) := write w.tree p.directory (p.context parse) o mode base id
      (tree, made.map fun built => (id, built))

/-- A new generation that is in its file is opened and becomes the one in use. -/
def finish (w : Workspace) (p : Project) (id : Nat) (built : Built) : Step Built :=
  let path := p.directory.fileFor id
  match w.openGeneration id path with
  | .error f =>
    { workspace := { w with tree := removeStore w.tree path }, project := p, answer := .error f }
  | .ok (w, g) =>
    let step := install w p g
    { step with answer := step.answer.map fun _ => built }

/-- A build under the build lock. -/
def buildLocked (w : Workspace) (p : Project) (parse : Chunk.Parse) (mode : BuildMode)
    (o : BuildOptions) : Step Built :=
  let (w, p) := p.refresh w
  match makeNext w p parse mode o with
  | (tree, .error f) => { workspace := { w with tree }, project := p, answer := .error f }
  | (tree, .ok (id, built)) => finish { w with tree } p id built

/-- A new generation, unless another build is running. -/
def build (w : Workspace) (p : Project) (parse : Chunk.Parse) (mode : BuildMode)
    (o : BuildOptions) : Step Built :=
  match w.lock p.directory with
  | (w, .error obstacle) => { workspace := w, project := p, answer := .error obstacle.fault }
  | (w, .ok false) => { workspace := w, project := p, answer := .error (.buildInProgress p.root) }
  | (w, .ok true) =>
    let step := buildLocked w p parse mode o
    { step with workspace := step.workspace.unlock p.directory }

/-! ## Answering -/

/-- Asks the generation in use, and once more if its file went away meanwhile. -/
def ask {α : Type} (w : Workspace) (p : Project)
    (question : Workspace → Project → Generation → Except Fault α) : Step α :=
  let (w, p) := p.refresh w
  match p.current with
  | none => { workspace := w, project := p, answer := .error (.noIndex p.root) }
  | some g =>
    match question w p g with
    | .ok a => { workspace := w, project := p, answer := .ok a }
    | .error f =>
      if g.vanished w.tree f then
        let (w, p) := p.refresh w
        match p.current with
        | none => { workspace := w, project := p, answer := .error (.noIndex p.root) }
        | some g => { workspace := w, project := p, answer := question w p g }
      else { workspace := w, project := p, answer := .error f }

/-- The text of a source file of a project. -/
def source (w : Workspace) (p : Project) (path : Path) : Option String :=
  (w.tree.readText (p.root.join path)).toOption

/-- What a search in one generation gives. -/
def searchIn (r : SearchRequest) (w : Workspace) (p : Project) (g : Generation) :
    Except Fault SearchResponse :=
  let store :=
    if r.mode.needsVectors then g.reader w.tree "failed to prepare query" "chunks"
    else g.reader w.tree "failed to prepare FTS query" "chunks_fts"
  Search.run { settings := p.settings, model := p.model, source := source w p } g.id g.facts store r

/-- What a search gives. -/
def search (w : Workspace) (p : Project) (r : SearchRequest) : Step SearchResponse :=
  ask w p (searchIn r)

/-- The profile of the generation in use. -/
def profile (w : Workspace) (p : Project) : Workspace × Project × Option ProfileName :=
  let (w, p) := p.refresh w
  (w, p, p.current.map fun g => g.facts.profile.name)

end Project

/-! ## Statistics -/

/-- The numbers of an index, and what it was made with. -/
structure ProjectStatistics where
  root : Path
  generation : Nat
  facts : BuildFacts
  counts : StoreStatistics
  /-- The name of the model that searches would use. -/
  configuredModel : Option String
  /-- The size of the index in bytes. -/
  size : Nat
  deriving Inhabited

namespace ProjectStatistics

/-- Whether the vectors of the index are of no use to the model that is configured. -/
def modelMismatch (s : ProjectStatistics) : Bool :=
  match s.facts.model, s.configuredModel with
  | some built, some configured => built != configured
  | some _, none => true
  | none, _ => false

/-- The numbers as an object. -/
def json (s : ProjectStatistics) : Json :=
  .obj [("root", .str s.root.text), ("generationId", .int s.generation),
    ("schemaVersion", .int s.facts.schema), ("totalChunks", .int s.counts.chunks),
    ("totalFiles", .int s.counts.files), ("embeddedChunks", .int s.counts.embedded),
    ("degradedFiles", .int s.counts.degraded), ("dimension", .int s.facts.dimension),
    ("profile", s.facts.profile.json), ("model", Json.ofOption .str s.facts.model),
    ("configuredModel", Json.ofOption .str s.configuredModel),
    ("modelMismatch", .bool s.modelMismatch), ("languages", tallyJson s.counts.languages),
    ("kinds", tallyJson s.counts.kinds), ("indexSizeBytes", .int s.size),
    ("createdAt", .int s.facts.createdAt)]

end ProjectStatistics

namespace Project

/-- The numbers of one generation. -/
def statisticsIn (w : Workspace) (p : Project) (g : Generation) :
    Except Fault ProjectStatistics :=
  match g.reader w.tree "failed to count rows" "chunks" with
  | .error f => .error f
  | .ok store => .ok {
      root := p.root
      generation := g.id
      facts := g.facts
      counts := store.statistics
      configuredModel := p.model.map EmbeddingModel.name
      size := store.text.utf8ByteSize }

/-- The numbers of the index. -/
def statistics (w : Workspace) (p : Project) : Step ProjectStatistics := ask w p statisticsIn

end Project

end SourceIndex
