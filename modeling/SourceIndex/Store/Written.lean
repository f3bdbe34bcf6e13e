import SourceIndex.Chunk.Written
import SourceIndex.Json.Read
import SourceIndex.Settings.Written
import SourceIndex.Store.Basic

set_option autoImplicit false

/-! # Written stores

A store as a text, in the form in which it lies in a file. A text that was not written by this
library holds no store.

* `Store.text`, `Store.ofText?`: a store and its text.
-/

namespace SourceIndex

namespace FileRecord

/-- A record as an object. -/
def json (f : FileRecord) : Json :=
  .obj [("path", .str f.path.text), ("language", .str f.language), ("size", .natural f.size),
    ("modified", .natural f.modified), ("contentHash", .str f.contentHash),
    ("degraded", .bool f.degraded)]

/-- The record of an object. -/
def ofJson? (j : Json) : Option FileRecord := do
  return {
    path := ⟨← j.stringAt? "path"⟩
    language := ← j.stringAt? "language"
    size := ← j.naturalAt? "size"
    modified := ← j.naturalAt? "modified"
    contentHash := ← j.stringAt? "contentHash"
    degraded := ← j.truthAt? "degraded" }

end FileRecord

namespace BuildFacts

/-- The facts of a build as an object. -/
def json (f : BuildFacts) : Json :=
  .obj [("generationId", .natural f.generation), ("schemaVersion", .natural f.schema),
    ("profile", f.profile.json), ("dimension", .natural f.dimension),
    ("model", Json.ofOption .str f.model), ("languages", Json.ofOption Json.strings f.languages),
    ("createdAt", .natural f.createdAt)]

/-- The facts of an object. -/
def ofJson? (j : Json) : Option BuildFacts := do
  return {
    generation := ← j.naturalAt? "generationId"
    schema := ← j.naturalAt? "schemaVersion"
    profile := ← (j.given? "profile").bind Profile.ofJson?
    dimension := ← j.naturalAt? "dimension"
    model := j.stringAt? "model"
    languages := j.stringsAt? "languages"
    createdAt := ← j.naturalAt? "createdAt" }

end BuildFacts

namespace Store

/-- The first field of a written store. -/
def markName : String := "sourceIndexStore"

/-- A store as an object. -/
def json (s : Store) : Json :=
  .obj [(markName, .natural 1), ("files", .arr (s.files.map FileRecord.json)),
    ("chunks", .arr (s.chunks.map Chunk.json)), ("facts", Json.ofOption BuildFacts.json s.facts)]

/-- The store of an object. -/
def ofJson? (j : Json) : Option Store := do
  if (← j.naturalAt? markName) ≠ 1 then none
  return {
    files := ← (← j.itemsAt? "files").mapM FileRecord.ofJson?
    chunks := ← (← j.itemsAt? "chunks").mapM Chunk.ofJson?
    facts := (j.given? "facts").bind BuildFacts.ofJson? }

/-- The text of a store. -/
def text (s : Store) : String := s.json.compact

/-- How the text of a store begins. -/
def leadText : String := "\x7b" ++ Json.quote markName ++ ":"

/-- The store that a text holds. -/
def ofText? (text : String) : Option Store :=
  if Text.startsWith text leadText then (Json.read? text).bind ofJson? else none

end Store

end SourceIndex
