import SourceIndex.Build.Plan
import SourceIndex.Chunk.Forest
import SourceIndex.Embedding.Model
import SourceIndex.Json.Basic

set_option autoImplicit false

/-! # Builds

A build makes the contents of a new generation. It starts from nothing, or from the previous
generation: then a file whose digest is unchanged keeps its record and its chunks, and so does
one that cannot be read any more for another reason than being gone. Vectors are kept only if
they come from the same model at the same dimension; the model is asked for those that are
missing.

A build can be stopped at some points. It gives up when too large a share of the files cannot
be read.

* `Reading.sort`: files that were read are carried over or cut anew.
* `Prepared.make`: records and chunks of the new generation.
* `Prepared.embed`: the vectors that are missing.
* `BuildReport.ofPrepared`: the numbers of a build.
-/

namespace SourceIndex

/-! ## Options -/

/-- What a build starts from. -/
inductive BuildMode where
  /-- Every file is read and cut anew. -/
  | full
  /-- Files that did not change are carried over; with hints only those are looked at. -/
  | incremental (hints : Option (List Path))
  deriving Inhabited

/-- A point at which a build can be stopped. -/
inductive Checkpoint where
  /-- After the files were read. -/
  | read
  /-- After they were cut. -/
  | cut
  /-- While vectors are made. -/
  | embed
  /-- After the generation was written. -/
  | written
  deriving DecidableEq, Repr, Inhabited

/-- Why a build is stopped. -/
inductive Interruption where
  | cancelled
  | timedOut
  deriving DecidableEq, Repr, Inhabited

/-- An interruption of a build as a fault. -/
def Interruption.fault : Interruption → Fault
  | .cancelled => .cancelled .build
  | .timedOut => .timedOut .build

/-- What a caller asks of a build. -/
structure BuildOptions where
  /-- The profile; an incremental build keeps that of the previous generation. -/
  profile : ProfileName := default
  /-- The languages, all of them if absent; an incremental build keeps those of the previous
  generation. -/
  languages : Option (List String) := none
  /-- Where and why the build is stopped, if it is. -/
  stop : Option (Checkpoint × Interruption) := none
  /-- The time at which the build ends, in seconds. -/
  now : Nat := 0
  deriving Inhabited

/-- Nothing, unless the build is stopped at a point. -/
def BuildOptions.pass (o : BuildOptions) (point : Checkpoint) : Except Fault Unit :=
  match o.stop with
  | some (p, why) => if p = point then .error why.fault else .ok ()
  | none => .ok ()

/-- What a build has to work with. -/
structure BuildContext where
  root : Path
  settings : Settings
  model : Option EmbeddingModel
  parse : Chunk.Parse

namespace BuildContext

/-- The dimension of the vectors of the model, or the one that is set if there is no model. -/
def nativeDimension (x : BuildContext) : Nat :=
  match x.model with
  | some m => m.dimension
  | none => x.settings.embedding.dimensions

end BuildContext

/-- The generation that an incremental build starts from. -/
structure BuildBase where
  facts : BuildFacts
  store : Store
  deriving Inhabited

namespace BuildBase

/-- The records by their paths. -/
def records (b : BuildBase) : PathMap FileRecord :=
  .ofList (b.store.orderedFiles.map fun f => (f.path, f))

end BuildBase

/-! ## Sorting what was read -/

/-- What came of reading a path. -/
structure Reading where
  path : Path
  result : Except Obstacle (Option SourceFile)

/-- Files divided by what is done with them. -/
structure Sorting where
  /-- How many files could not be read. -/
  failed : Nat := 0
  /-- The files that are cut anew, in order. -/
  changed : List SourceFile := []
  /-- The paths whose chunks are carried over. -/
  carried : PathSet := .empty
  /-- The new records of files that were read and did not change. -/
  records : PathMap FileRecord := .empty
  deriving Inhabited

namespace Sorting

/-- The division after one more file was read. -/
def add (earlier : PathMap FileRecord) (s : Sorting) (r : Reading) : Sorting :=
  match r.result with
  | .ok (some file) =>
    match earlier.get? r.path with
    | some record =>
      if record.contentHash = file.contentHash then
        { s with
          records := s.records.insert r.path { record with modified := 0, size := file.size }
          carried := s.carried.add r.path }
      else { s with changed := s.changed ++ [file] }
    | none => { s with changed := s.changed ++ [file] }
  | .ok none => s
  | .error .missing => s
  | .error _ =>
    { s with
      failed := s.failed + 1
      carried := if earlier.contains r.path then s.carried.add r.path else s.carried }

/-- The files of a plan divided. -/
def ofReadings (earlier : PathMap FileRecord) (carry : PathSet) (rs : List Reading) : Sorting :=
  rs.foldl (add earlier) { carried := carry }

/-- Whether too large a share of the files could not be read. -/
def exceeds (s : Sorting) (attempted : Nat) (threshold : Float) : Bool :=
  0 < attempted && threshold * Float.ofNat attempted < Float.ofNat s.failed

end Sorting

/-! ## Records and chunks -/

/-- The records and chunks of a new generation, and the numbers of its report. -/
structure Prepared where
  profile : Profile
  dimension : Nat
  languages : Option (List String)
  files : List FileRecord
  chunks : List Chunk
  incremental : Bool
  rebuilt : Nat
  reused : Nat
  removed : Nat
  failed : Nat
  degraded : Nat
  deriving Inhabited

/-- A file that was cut. -/
structure CutFile where
  record : FileRecord
  chunks : List Chunk
  deriving Inhabited

/-- A file cut into chunks. -/
def CutFile.ofFile (parse : Chunk.Parse) (limits : ChunkLimits) (file : SourceFile) : CutFile :=
  let outcome := Chunk.ofFile parse file limits
  { chunks := outcome.chunks
    record :=
      { path := file.path, language := file.language.id, size := file.size, modified := 0
        contentHash := file.contentHash, degraded := outcome.degraded } }

/-- A file carried over: its record, and its chunks with or without their vectors. -/
def CutFile.carry (b : BuildBase) (keepVectors : Bool) (earlier renewed : PathMap FileRecord)
    (path : Path) : Option CutFile :=
  ((renewed.get? path).or (earlier.get? path)).map fun record =>
    let chunks := b.store.chunksOf path
    { record
      chunks := if keepVectors then chunks else chunks.map fun c => { c with embedding := none } }

/-- The profile and the dimension of a generation. -/
def BuildContext.profileFor (x : BuildContext) (o : BuildOptions) (base : Option BuildBase)
    (changed : List SourceFile) : Profile × Nat :=
  match base with
  | some b =>
    let dimension := if 0 < b.facts.dimension then b.facts.dimension else b.facts.profile.dimension
    (b.facts.profile, min dimension x.nativeDimension)
  | none =>
    let profile := Profile.resolve o.profile changed.length (changed.foldl (fun bytes file => bytes + file.size) 0)
      x.settings.profiles x.nativeDimension
    (profile, profile.dimension)

/-- Whether the vectors of the previous generation are those the model would make. -/
def BuildContext.keepsVectors (x : BuildContext) (b : BuildBase) (dimension : Nat) : Bool :=
  b.facts.dimension == dimension && b.facts.model == x.model.map EmbeddingModel.name

namespace Prepared

/-- The languages of a generation. -/
def languagesFor (o : BuildOptions) (base : Option BuildBase) : Option (List String) :=
  match base with
  | some b => b.facts.languages
  | none => o.languages

/-- The new generation once its files are divided. -/
def ofSorting (x : BuildContext) (o : BuildOptions) (base : Option BuildBase) (s : Sorting) :
    Prepared :=
  let (profile, dimension) := x.profileFor o base s.changed
  let earlier := (base.map BuildBase.records).getD .empty
  let carried :=
    match base with
    | some b =>
      s.carried.paths.filterMap
        (CutFile.carry b (x.keepsVectors b dimension) earlier s.records)
    | none => []
  let cut := s.changed.map (CutFile.ofFile x.parse profile.params.toChunkLimits)
  let files := ((carried ++ cut).map CutFile.record).mergeSort fun f g => f.path.le g.path
  let kept := PathSet.ofPaths (files.map FileRecord.path)
  { profile, dimension
    languages := languagesFor o base
    files
    chunks := (carried ++ cut).flatMap CutFile.chunks
    incremental := base.isSome
    rebuilt := cut.length
    reused := carried.length
    removed := earlier.keys.countP fun p => !kept.contains p
    failed := s.failed
    degraded := cut.countP fun c => c.record.degraded }

/-- The new generation of a tree. -/
def make (t : FileTree) (x : BuildContext) (o : BuildOptions) (base : Option BuildBase)
    (hints : Option (List Path)) : Except Fault Prepared := do
  let walk := (WalkOptions.ofSettings x.settings.index).withLanguages (languagesFor o base)
  let earlier := base.map BuildBase.records
  let plan ← ReadPlan.make t x.root walk (earlier.map PathMap.keys) hints
  let readings : List Reading :=
    plan.read.map fun path => ⟨path, Listing.readSource t x.root path walk⟩
  o.pass .read
  let s := Sorting.ofReadings (earlier.getD .empty) plan.carry readings
  if s.exceeds readings.length x.settings.index.failureThreshold then
    throw (.failureThreshold s.failed readings.length)
  o.pass .cut
  return ofSorting x o base s

/-! ## Vectors -/

/-- The texts of the chunks that have no vector. -/
def missingTexts (chunks : List Chunk) : List String :=
  (chunks.filter fun c => c.embedding.isNone).map Chunk.embeddingText

/-- Chunks where those without a vector have got the next one each. -/
def attach : List Chunk → List (Option Embedding) → List Chunk
  | [], _ => []
  | c :: rest, slots =>
    match c.embedding, slots with
    | none, v :: slots => { c with embedding := v } :: attach rest slots
    | _, slots => c :: attach rest slots

/-- The new generation with the vectors that the model makes. -/
def embed (p : Prepared) (m : EmbeddingModel) (batchSize : Nat) : Except Fault Prepared :=
  match m.embedTexts p.dimension batchSize (missingTexts p.chunks) with
  | none => .error (.timedOut .build)
  | some slots => .ok { p with chunks := attach p.chunks slots }

/-- The model that makes vectors for a generation; there is none for vectors of no dimension. -/
def modelFor (p : Prepared) (x : BuildContext) : Option EmbeddingModel :=
  if 0 < p.dimension then x.model else none

/-- The new generation with its vectors. -/
def complete (p : Prepared) (x : BuildContext) (o : BuildOptions) : Except Fault Prepared :=
  match p.modelFor x with
  | none => .ok p
  | some m => do
    o.pass .embed
    p.embed m x.settings.embedding.batchSize

/-- The facts of the build. -/
def facts (p : Prepared) (x : BuildContext) (o : BuildOptions) (generation : Nat) :
    BuildFacts where
  generation
  schema := Store.schemaVersion
  profile := p.profile
  dimension := if (p.modelFor x).isSome then p.dimension else 0
  model := (p.modelFor x).map EmbeddingModel.name
  languages := p.languages
  createdAt := o.now

end Prepared

/-! ## Reports -/

/-- The numbers of a finished build. -/
structure BuildReport where
  /-- The generation that is in use now. -/
  generation : Nat
  /-- Whether files could be carried over. -/
  incremental : Bool
  profile : ProfileName
  /-- The dimension of the vectors; zero if there are none. -/
  dimension : Nat
  /-- How many files the generation has. -/
  files : Nat
  /-- How many of them were cut anew. -/
  rebuilt : Nat
  /-- How many of them were carried over. -/
  reused : Nat
  /-- How many files of the previous generation it does not have. -/
  removed : Nat
  /-- How many files could not be read. -/
  failed : Nat
  /-- How many files that were cut anew could not be parsed. -/
  degraded : Nat
  chunks : Nat
  /-- How many chunks have a vector. -/
  embedded : Nat
  deriving DecidableEq, Repr, Inhabited

namespace BuildReport

/-- The report of a build. -/
def ofPrepared (p : Prepared) (facts : BuildFacts) : BuildReport where
  generation := facts.generation
  incremental := p.incremental
  profile := facts.profile.name
  dimension := facts.dimension
  files := p.files.length
  rebuilt := p.rebuilt
  reused := p.reused
  removed := p.removed
  failed := p.failed
  degraded := p.degraded
  chunks := p.chunks.length
  embedded := p.chunks.countP fun c => c.embedding.isSome

/-- The fields of a report; the time it took is told by the caller. -/
def json (r : BuildReport) (elapsed : Nat) : Json :=
  .obj [("generationId", .int r.generation), ("incremental", .bool r.incremental),
    ("profile", .str r.profile.id), ("dimension", .int r.dimension),
    ("filesIndexed", .int r.files), ("filesRebuilt", .int r.rebuilt),
    ("filesReused", .int r.reused), ("filesRemoved", .int r.removed),
    ("filesFailed", .int r.failed), ("filesDegraded", .int r.degraded),
    ("chunks", .int r.chunks), ("embeddedChunks", .int r.embedded), ("elapsedMs", .int elapsed)]

end BuildReport

end SourceIndex
