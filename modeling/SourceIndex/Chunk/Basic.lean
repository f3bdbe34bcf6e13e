import SourceIndex.Chunk.Summary
import SourceIndex.Digest
import SourceIndex.Path
import SourceIndex.Syntax.Definition

set_option autoImplicit false

/-! # Chunks

A chunk is a retrievable part of a source file: a range of lines with its text and what is
known about the definition it holds. Chunks of one file form a forest through the ids of their
parents.

* `Chunk.idOf`: the id as a digest of path, kind, dotted path and content.
* `Chunk.make`, `Chunk.rename`: a chunk and its id kept in step.
* `Chunk.embeddingText`: what is said about a chunk to an embedding model.
-/

namespace SourceIndex

/-- What a chunk holds. -/
inductive ChunkKind where
  /-- A group of statements at the top of a file. -/
  | module
  /-- A container of other definitions. -/
  | container
  /-- A function outside of a container. -/
  | function
  /-- A function of a container. -/
  | method
  /-- A window of lines. -/
  | window
  deriving DecidableEq, Repr, Inhabited

namespace ChunkKind

/-- The name an index stores. -/
def id : ChunkKind → String
  | .module => "module"
  | .container => "class"
  | .function => "function"
  | .method => "method"
  | .window => "fallback-window"

/-- The kind with a given name. -/
def ofId? (id : String) : Option ChunkKind :=
  [module, container, function, method, window].find? fun k => k.id == id

/-- Whether a chunk of this kind holds a definition. -/
def isDefinition : ChunkKind → Bool
  | .container | .function | .method => true
  | .module | .window => false

theorem ofId?_id (k : ChunkKind) : ofId? k.id = some k := by
  cases k <;> rfl

end ChunkKind

/-- A call to a definition of the same file, with its line. -/
structure CallEdge where
  callee : String
  line : Nat
  deriving DecidableEq, Repr, Inhabited

/-- A vector given by an embedding model. -/
abbrev Embedding := List Float32

/-- A retrievable part of a source file. -/
structure Chunk where
  id : String
  path : Path
  /-- The id of the file's language. -/
  language : String
  kind : ChunkKind
  /-- The declared name. -/
  name : Option String
  /-- The dotted path from the file's module to this chunk. -/
  fullPath : String
  parentId : Option String
  /-- How many chunks enclose this one. -/
  depth : Nat
  /-- The first line, counted from one. -/
  startLine : Nat
  /-- The last line. -/
  endLine : Nat
  signature : Option String
  parameters : List Parameter
  returnType : Option String
  docstring : Option String
  decorators : List String
  /-- The imports of the file. -/
  imports : List String
  calls : List CallEdge
  /-- The text; a chunk with children has dots in their place. -/
  content : String
  contentHash : String
  /-- The digest of the whole file. -/
  fileHash : String
  embedding : Option Embedding
  deriving Inhabited

namespace Chunk

/-! ## Names -/

/-- The dotted module path of a file: its directories and its name without the extension. -/
def moduleNames (path : Path) : List String :=
  match path.fileName? with
  | none => path.names
  | some name =>
    let stem := (Path.cutName name).1
    path.names.dropLast ++ if stem = "." ∨ stem = ".." then [] else [stem]

/-- The dotted module path of a file, or the path itself if no name is in it. -/
def modulePath (path : Path) : String :=
  match moduleNames path with
  | [] => path.text
  | names => ".".intercalate names

/-- The bytes whose digest is a chunk's id, zero bytes between the parts. -/
def idText (path : Path) (kind : ChunkKind) (fullPath contentHash : String) : String :=
  "\x00".intercalate [path.text, kind.id, fullPath, contentHash]

/-- The id of a chunk: the first 32 digits of a digest. -/
def idOf (path : Path) (kind : ChunkKind) (fullPath contentHash : String) : String :=
  String.ofList ((Digest.ofText (idText path kind fullPath contentHash)).toList.take 32)

/-! ## Making chunks -/

/-- A chunk with the given lines and content, and nothing known about it; its dotted path is
the module and the line. -/
def make (path : Path) (language : String) (kind : ChunkKind) (content : String)
    (startLine endLine : Nat) : Chunk :=
  let contentHash := Digest.ofText content
  let fullPath := modulePath path ++ "@" ++ toString startLine
  { id := idOf path kind fullPath contentHash
    path, language, kind
    name := none
    fullPath
    parentId := none
    depth := 0
    startLine, endLine
    signature := none
    parameters := []
    returnType := none
    docstring := none
    decorators := []
    imports := []
    calls := []
    content, contentHash
    fileHash := ""
    embedding := none }

/-- The chunk under another dotted path, with the id that goes with it. -/
def rename (c : Chunk) (fullPath : String) : Chunk :=
  { c with fullPath, id := idOf c.path c.kind fullPath c.contentHash }

/-! ## Lines and text -/

/-- How many lines a chunk spans, unless the range is reversed or its length leaves 32 bits. -/
def lineCount? (c : Chunk) : Option Nat :=
  if c.startLine ≤ c.endLine ∧ c.endLine - c.startLine + 1 < UInt32.size then
    some (c.endLine - c.startLine + 1)
  else none

/-- Whether the lines of `d` are among those of `c`. -/
def covers (c d : Chunk) : Bool := c.startLine ≤ d.startLine && d.endLine ≤ c.endLine

/-- The text an embedding model is given: where the chunk stands and what it is, then its
content. -/
def embeddingText (c : Chunk) : String :=
  let signature := (c.signature.map fun s => "\n# Signature: " ++ s).getD ""
  let description := ((c.docstring.bind summary?).map fun s => "\n# Description: " ++ s).getD ""
  "# File: " ++ c.path.text ++ "\n# Type: " ++ c.kind.id ++ "\n# Path: " ++ c.fullPath ++
    signature ++ description ++ "\n\n" ++ c.content

end Chunk

end SourceIndex
