import SourceIndex.Chunk.Written
import SourceIndex.Json.Read
import SourceIndex.Store.Basic

set_option autoImplicit false

/-! # Chunks as rows

In the table of a store a chunk is a row. Its lists are columns of text, each a JSON list, and its
vector is a column of bytes, four for each number with the lowest first. Rows are numbered as they
go in.

* `ChunkRow.ofChunk`, `ChunkRow.chunk?`: a chunk as a row, and back.
* `Store.select?`: the chunks of a file, read from their rows.
-/

namespace SourceIndex

/-! ## Vectors as bytes -/

namespace Embedding

/-- The bytes of a word. -/
def bytesOfWord (w : UInt32) : List UInt8 :=
  [w.toUInt8, (w >>> 8).toUInt8, (w >>> 16).toUInt8, (w >>> 24).toUInt8]

/-- The word of four bytes. -/
def wordOfBytes (a b c d : UInt8) : UInt32 :=
  a.toUInt32 + b.toUInt32 * 256 + c.toUInt32 * 65536 + d.toUInt32 * 16777216

/-- Words as bytes, one after the other. -/
def bytesOfWords (words : List UInt32) : List UInt8 := words.flatMap bytesOfWord

/-- The words that bytes make up; up to three bytes at the end are left over. -/
def wordsOfBytes : List UInt8 → List UInt32
  | a :: b :: c :: d :: rest => wordOfBytes a b c d :: wordsOfBytes rest
  | _ => []

/-- A vector as bytes. -/
def bytes (v : Embedding) : List UInt8 := bytesOfWords (v.map Float32.toBits)

/-- The vector of bytes. -/
def ofBytes (bytes : List UInt8) : Embedding := (wordsOfBytes bytes).map Float32.ofBits

end Embedding

/-! ## Lists as texts -/

namespace Json

/-- A list as a text. -/
def listText {α : Type} (item : α → Json) (items : List α) : String := (arr (items.map item)).compact

/-- The list that a text spells. -/
def listOfText? {α : Type} (item? : Json → Option α) (text : String) : Option (List α) :=
  ((read? text).bind items?).bind fun items => items.mapM item?

end Json

/-! ## Rows -/

/-- A chunk in the table. -/
structure ChunkRow where
  /-- Which row it is. -/
  number : Nat
  id : String
  path : String
  language : String
  kind : String
  name : Option String
  fullPath : String
  parentId : Option String
  depth : Nat
  startLine : Nat
  endLine : Nat
  signature : Option String
  parameters : String
  returnType : Option String
  docstring : Option String
  decorators : String
  imports : String
  calls : String
  content : String
  contentHash : String
  fileHash : String
  embedding : Option (List UInt8)
  deriving DecidableEq, Repr, Inhabited

namespace ChunkRow

/-- The row of a chunk. -/
def ofChunk (number : Nat) (c : Chunk) : ChunkRow where
  number
  id := c.id
  path := c.path.text
  language := c.language
  kind := c.kind.id
  name := c.name
  fullPath := c.fullPath
  parentId := c.parentId
  depth := c.depth
  startLine := c.startLine
  endLine := c.endLine
  signature := c.signature
  parameters := Json.listText Parameter.json c.parameters
  returnType := c.returnType
  docstring := c.docstring
  decorators := Json.listText Json.str c.decorators
  imports := Json.listText Json.str c.imports
  calls := Json.listText CallEdge.json c.calls
  content := c.content
  contentHash := c.contentHash
  fileHash := c.fileHash
  embedding := c.embedding.map Embedding.bytes

/-- The chunk of a row. A kind that is none, or a list that is not written as one, is no chunk. -/
def chunk? (r : ChunkRow) : Option Chunk := do
  return {
    id := r.id
    path := ⟨r.path⟩
    language := r.language
    kind := ← ChunkKind.ofId? r.kind
    name := r.name
    fullPath := r.fullPath
    parentId := r.parentId
    depth := r.depth
    startLine := r.startLine
    endLine := r.endLine
    signature := r.signature
    parameters := ← Json.listOfText? Parameter.ofJson? r.parameters
    returnType := r.returnType
    docstring := r.docstring
    decorators := ← Json.listOfText? Json.string? r.decorators
    imports := ← Json.listOfText? Json.string? r.imports
    calls := ← Json.listOfText? CallEdge.ofJson? r.calls
    content := r.content
    contentHash := r.contentHash
    fileHash := r.fileHash
    embedding := r.embedding.map Embedding.ofBytes }

/-- Whether a row comes no later than another: by first line, then by depth, then by number. -/
def le (r t : ChunkRow) : Bool :=
  r.startLine < t.startLine || (r.startLine == t.startLine &&
    (r.depth < t.depth || (r.depth == t.depth && r.number ≤ t.number)))

end ChunkRow

namespace Store

/-- The table of the chunks. -/
def rows (s : Store) : List ChunkRow := s.chunks.mapIdx fun i c => .ofChunk (i + 1) c

/-- The chunks of a file in order, each read from its row; none if a row is not that of a chunk. -/
def select? (s : Store) (path : Path) : Option (List Chunk) :=
  ((s.rows.filter fun r => r.path = path.text).mergeSort ChunkRow.le).mapM ChunkRow.chunk?

end Store

end SourceIndex
