import SourceIndex.Chunk.Basic
import SourceIndex.Json.Fields
import SourceIndex.Numeric.Binary

set_option autoImplicit false

/-! # Written chunks

A chunk as a JSON object, and back. The numbers of a vector are written as the digits of their
bits, so that nothing is lost.

* `Chunk.json`, `Chunk.ofJson?`: the object of a chunk.
-/

namespace SourceIndex

/-- A parameter as an object. -/
def Parameter.json (p : Parameter) : Json :=
  .obj ([("name", .str p.name)] ++ Json.optional "typeAnnotation" .str p.typeText ++
    Json.optional "default" .str p.default)

/-- The parameter of an object. -/
def Parameter.ofJson? (j : Json) : Option Parameter := do
  return ⟨← j.stringAt? "name", j.stringAt? "typeAnnotation", j.stringAt? "default"⟩

/-- A call as an object. -/
def CallEdge.json (e : CallEdge) : Json :=
  .obj [("callee", .str e.callee), ("line", .natural e.line)]

/-- The call of an object. -/
def CallEdge.ofJson? (j : Json) : Option CallEdge := do
  return ⟨← j.stringAt? "callee", ← j.naturalAt? "line"⟩

namespace Embedding

/-- A vector as a list of digits. -/
def json (v : Embedding) : Json := Json.strings (v.map Numeric.hexOfFloat32)

/-- The vector of a list of digits. -/
def ofJson? (j : Json) : Option Embedding :=
  j.items?.bind fun items => items.mapM fun item => item.string?.bind Numeric.float32OfHex?

end Embedding

namespace Chunk

/-- A chunk as an object. -/
def json (c : Chunk) : Json :=
  .obj ([("id", .str c.id), ("filePath", .str c.path.text), ("language", .str c.language),
    ("kind", .str c.kind.id), ("name", Json.ofOption .str c.name),
    ("fullPath", .str c.fullPath), ("parentId", Json.ofOption .str c.parentId),
    ("depth", .natural c.depth), ("startLine", .natural c.startLine),
    ("endLine", .natural c.endLine), ("signature", Json.ofOption .str c.signature),
    ("parameters", .arr (c.parameters.map Parameter.json)),
    ("returnType", Json.ofOption .str c.returnType),
    ("docstring", Json.ofOption .str c.docstring), ("decorators", Json.strings c.decorators),
    ("imports", Json.strings c.imports), ("calls", .arr (c.calls.map CallEdge.json)),
    ("content", .str c.content), ("contentHash", .str c.contentHash),
    ("fileHash", .str c.fileHash)] ++
    Json.optional "embedding" Embedding.json c.embedding)

/-- The chunk of an object. -/
def ofJson? (j : Json) : Option Chunk := do
  return {
    id := ← j.stringAt? "id"
    path := ⟨← j.stringAt? "filePath"⟩
    language := ← j.stringAt? "language"
    kind := ← (j.stringAt? "kind").bind ChunkKind.ofId?
    name := j.stringAt? "name"
    fullPath := ← j.stringAt? "fullPath"
    parentId := j.stringAt? "parentId"
    depth := ← j.naturalAt? "depth"
    startLine := ← j.naturalAt? "startLine"
    endLine := ← j.naturalAt? "endLine"
    signature := j.stringAt? "signature"
    parameters := ← (← j.itemsAt? "parameters").mapM Parameter.ofJson?
    returnType := j.stringAt? "returnType"
    docstring := j.stringAt? "docstring"
    decorators := ← j.stringsAt? "decorators"
    imports := ← j.stringsAt? "imports"
    calls := ← (← j.itemsAt? "calls").mapM CallEdge.ofJson?
    content := ← j.stringAt? "content"
    contentHash := ← j.stringAt? "contentHash"
    fileHash := ← j.stringAt? "fileHash"
    embedding := (j.given? "embedding").bind Embedding.ofJson? }

end Chunk

end SourceIndex
