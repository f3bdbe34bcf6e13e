import SourceIndex.Chunk.Basic
import SourceIndex.Fault
import SourceIndex.Profile

set_option autoImplicit false

/-! # Index stores

A store holds what one build found: a record of every file, the chunks of the files, and the
facts of the build. A batch of records and chunks goes in whole or not at all. Chunk ids never
repeat, and every chunk belongs to a recorded file.

* `Store.insert`: a batch goes in.
* `Store.orderedFiles`, `Store.chunksOf`, `Store.orderedChunks`: what a store holds, in order.
* `Store.readFacts`: the facts of the build, if this library can use them.
-/

namespace SourceIndex

/-- What is recorded about an indexed file. -/
structure FileRecord where
  path : Path
  /-- The id of the language. -/
  language : String
  /-- The size in bytes. -/
  size : Nat
  /-- When the file was last changed, in seconds. -/
  modified : Nat
  contentHash : String
  /-- Whether the file could not be parsed and was cut into windows of lines. -/
  degraded : Bool
  deriving DecidableEq, Repr, Inhabited

/-- What is recorded about a build. -/
structure BuildFacts where
  generation : Nat
  /-- The version of the layout of the store. -/
  schema : Nat
  profile : Profile
  /-- The dimension of the vectors; zero if there are none. -/
  dimension : Nat
  /-- The name of the embedding model. -/
  model : Option String
  /-- The languages that were asked for, all of them if absent. -/
  languages : Option (List String)
  /-- When the build ended, in seconds. -/
  createdAt : Nat
  deriving DecidableEq, Repr, Inhabited

/-- The contents of an index. -/
structure Store where
  files : List FileRecord := []
  /-- The chunks in the order in which they went in. -/
  chunks : List Chunk := []
  facts : Option BuildFacts := none
  deriving Inhabited

/-! ## Faults -/

/-- Why a store refuses. -/
inductive StoreFault where
  /-- A chunk has the id of another one. -/
  | repeatedChunk (id : String)
  /-- A chunk belongs to a file without a record. -/
  | unrecordedFile (id : String)
  /-- The facts of the build were never written. -/
  | noFacts
  /-- The layout is of another version. -/
  | schemaMismatch (found : Nat)
  deriving DecidableEq, Repr

namespace Store

/-- The version of the layout. -/
def schemaVersion : Nat := 1

end Store

namespace StoreFault

/-- The wording of a store fault. -/
def message : StoreFault → String
  | .repeatedChunk id =>
    "failed to insert chunk " ++ id ++ ": UNIQUE constraint failed: chunks.id"
  | .unrecordedFile id => "failed to insert chunk " ++ id ++ ": FOREIGN KEY constraint failed"
  | .noFacts => "failed to read index metadata: Query returned no rows"
  | .schemaMismatch found =>
    "index schema version " ++ toString found ++ " is not supported (expected " ++
      toString Store.schemaVersion ++ "); re-index to rebuild"

/-- A store fault as a fault of an operation. -/
def fault (f : StoreFault) : Fault := .store f.message

end StoreFault

namespace Store

/-- The store that holds nothing. -/
def empty : Store := {}

/-! ## Going in -/

/-- Records with one more, which takes the place of a record of the same path. -/
def addFile (files : List FileRecord) (file : FileRecord) : List FileRecord :=
  files.filter (fun f => f.path ≠ file.path) ++ [file]

/-- The store with one more chunk. -/
def addChunk (s : Store) (c : Chunk) : Except StoreFault Store :=
  if s.chunks.any fun d => d.id = c.id then .error (.repeatedChunk c.id)
  else if s.files.any fun f => f.path = c.path then .ok { s with chunks := s.chunks ++ [c] }
  else .error (.unrecordedFile c.id)

/-- The store with more chunks, in order. -/
def addChunks (s : Store) : List Chunk → Except StoreFault Store
  | [] => .ok s
  | c :: rest =>
    match s.addChunk c with
    | .ok s => s.addChunks rest
    | .error f => .error f

/-- The store with a batch of records and chunks. -/
def insert (s : Store) (files : List FileRecord) (chunks : List Chunk) :
    Except StoreFault Store :=
  { s with files := files.foldl addFile s.files }.addChunks chunks

/-- The store with the facts of a build. -/
def writeFacts (s : Store) (facts : BuildFacts) : Store := { s with facts := some facts }

/-! ## Coming out -/

/-- The facts of the build. -/
def readFacts (s : Store) : Except StoreFault BuildFacts :=
  match s.facts with
  | none => .error .noFacts
  | some facts =>
    if facts.schema = schemaVersion then .ok facts else .error (.schemaMismatch facts.schema)

/-- The records in the order of the spelling of their paths. -/
def orderedFiles (s : Store) : List FileRecord :=
  s.files.mergeSort fun a b => Text.le a.path.text b.path.text

/-- Whether a chunk stands no later in its file than another: by first line, then by depth. -/
def placeLe (c d : Chunk) : Bool :=
  c.startLine < d.startLine || (c.startLine == d.startLine && c.depth ≤ d.depth)

/-- The chunks of a file as they stand in it; those at one place in the order in which they
went in. -/
def chunksOf (s : Store) (path : Path) : List Chunk :=
  (s.chunks.filter fun c => c.path = path).mergeSort placeLe

/-- Whether a chunk comes no later than another: by the spelling of the path, then by place. -/
def chunkLe (c d : Chunk) : Bool :=
  if c.path = d.path then placeLe c d else Text.le c.path.text d.path.text

/-- All chunks, file by file. -/
def orderedChunks (s : Store) : List Chunk := s.chunks.mergeSort chunkLe

/-- The chunk with an id. -/
def chunk? (s : Store) (id : String) : Option Chunk := s.chunks.find? fun c => c.id = id

end Store

end SourceIndex
