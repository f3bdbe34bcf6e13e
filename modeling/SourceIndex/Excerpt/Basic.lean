import SourceIndex.Chunk.Written
import SourceIndex.Settings.Basic
import SourceIndex.Settings.Choice

set_option autoImplicit false

/-! # Excerpts

An excerpt is what a result shows of a chunk. How much that is depends on the output mode: a
preview of the leading characters, the preview with signature and summary, or everything known
about the chunk with its content up to a cap. On request the neighbouring lines of the source
are added, provided the file still has the text that was indexed.

* `Chunk.describe`: the excerpt without neighbouring lines.
* `Chunk.excerpt`: the whole excerpt, given a way to read the source.
* `Excerpt.fields`: the excerpt as fields of a JSON object.
-/

namespace SourceIndex

/-! ## Lines with numbers -/

/-- A line with its number in the file. -/
structure NumberedLine where
  number : Nat
  text : String
  deriving DecidableEq, Repr, Inhabited

/-- Lines numbered from `first` on. -/
def numberLines (first : Nat) (lines : List String) : List NumberedLine :=
  lines.mapIdx fun i line => ⟨first + i, line⟩

/-- The lines of a text numbered from `first` on. -/
def numbered (text : String) (first : Nat) : List NumberedLine :=
  numberLines first (Text.lines text)

/-- The first characters of a text, at most `limit`, and whether any were left out. -/
def truncateText (text : String) (limit : Nat) : String × Bool :=
  let chars := text.toList
  if limit < chars.length then (String.ofList (chars.take limit), true) else (text, false)

/-! ## Options -/

/-- How much of each chunk to show. -/
structure OutputOptions where
  mode : OutputMode
  /-- Whether the ordinary cap on content is waived. -/
  fullContent : Bool
  /-- How many characters a preview has. -/
  previewLength : Nat
  /-- How many neighbouring lines to show on either side. -/
  context : Nat
  /-- The ordinary cap on content, in characters. -/
  maxContentLength : Nat
  /-- The cap that is never waived. -/
  hardMaxContentLength : Nat
  deriving DecidableEq, Repr, Inhabited

namespace OutputOptions

/-- The options that settings ask for. -/
def ofSettings (output : Settings.Output) : OutputOptions where
  mode := default
  fullContent := false
  previewLength := output.previewLength
  context := 0
  maxContentLength := output.maxContentLength
  hardMaxContentLength := output.hardMaxContentLength

/-- How many characters of content are shown at most. -/
def contentCap (o : OutputOptions) : Nat :=
  if o.fullContent then o.hardMaxContentLength else min o.maxContentLength o.hardMaxContentLength

end OutputOptions

/-! ## Excerpts -/

/-- What is shown of a chunk. -/
structure Excerpt where
  path : Path
  startLine : Nat
  endLine : Nat
  kind : ChunkKind
  language : String
  name : Option String
  fullPath : String
  preview : List NumberedLine := []
  previewTruncated : Bool := false
  signature : Option String := none
  returnType : Option String := none
  /-- The first line of the docstring. -/
  summary : Option String := none
  docstring : Option String := none
  parameters : List Parameter := []
  decorators : List String := []
  imports : List String := []
  calls : List CallEdge := []
  parentId : Option String := none
  content : List NumberedLine := []
  contentTruncated : Bool := false
  /-- Lines of the file before the chunk. -/
  before : List NumberedLine := []
  /-- Lines of the file after the chunk. -/
  after : List NumberedLine := []
  /-- Why something that was asked for is missing. -/
  note : Option String := none
  deriving Inhabited

namespace Chunk

/-- What is shown of a chunk in every mode. -/
def heading (c : Chunk) : Excerpt where
  path := c.path
  startLine := c.startLine
  endLine := c.endLine
  kind := c.kind
  language := c.language
  name := c.name
  fullPath := c.fullPath

/-- The excerpt of a chunk without neighbouring lines. -/
def describe (c : Chunk) (o : OutputOptions) : Excerpt :=
  let e := c.heading
  let e :=
    match o.mode with
    | .compact => e
    | .standard | .verbose =>
      { e with
        signature := c.signature
        returnType := c.returnType
        summary := c.docstring.bind summary? }
  match o.mode with
  | .compact | .standard =>
    let (text, truncated) := truncateText c.content o.previewLength
    { e with preview := numbered text c.startLine, previewTruncated := truncated }
  | .verbose =>
    let (text, truncated) := truncateText c.content o.contentCap
    { e with
      content := numbered text c.startLine
      contentTruncated := truncated
      docstring := c.docstring
      parameters := c.parameters
      decorators := c.decorators
      imports := c.imports
      calls := c.calls
      parentId := c.parentId }

/-- The note when the source cannot be read. -/
def unreadableNote : String := "source file no longer readable; context omitted"

/-- The note when the source is not what was indexed. -/
def changedNote : String := "source file changed since indexing; context omitted"

/-- An excerpt with up to `count` lines of the source on either side of the chunk. -/
def surround (c : Chunk) (count : Nat) (source : Option String) (e : Excerpt) : Excerpt :=
  match source with
  | none => { e with note := some unreadableNote }
  | some text =>
    if Digest.ofText text = c.fileHash then
      let lines := Text.lines text
      let last := min (c.startLine - 1) lines.length
      let first := last - count
      let next := min c.endLine lines.length
      { e with
        before := numberLines (first + 1) ((lines.take last).drop first)
        after := numberLines (next + 1) ((lines.drop next).take count) }
    else { e with note := some changedNote }

/-- What is shown of a chunk, where `source` reads the text of a file. -/
def excerpt (c : Chunk) (o : OutputOptions) (source : Path → Option String) : Excerpt :=
  let e := c.describe o
  if o.context = 0 then e else c.surround o.context (source c.path) e

end Chunk

/-! ## Fields -/

namespace Excerpt

/-- A field for a list, left out when it is empty. -/
def listField {α : Type} (name : String) (encode : α → Json) (items : List α) :
    List (String × Json) :=
  if items.isEmpty then [] else [(name, .arr (items.map encode))]

/-- A field for a mark, left out unless it is set. -/
def flagField (name : String) (flag : Bool) : List (String × Json) :=
  if flag then [(name, .bool true)] else []

/-- A numbered line as an object. -/
def lineJson (l : NumberedLine) : Json := .obj [("line", .int l.number), ("text", .str l.text)]

/-- The fields of an excerpt in the order of their importance. -/
def fields (e : Excerpt) : List (String × Json) :=
  [("filePath", .str e.path.text), ("startLine", .int e.startLine), ("endLine", .int e.endLine),
    ("kind", .str e.kind.id), ("language", .str e.language)] ++
  Json.optional "name" .str e.name ++
  [("fullPath", .str e.fullPath)] ++
  listField "preview" lineJson e.preview ++
  flagField "previewTruncated" e.previewTruncated ++
  Json.optional "signature" .str e.signature ++
  Json.optional "returnType" .str e.returnType ++
  Json.optional "summary" .str e.summary ++
  Json.optional "docstring" .str e.docstring ++
  listField "parameters" Parameter.json e.parameters ++
  listField "decorators" Json.str e.decorators ++
  listField "imports" Json.str e.imports ++
  listField "calls" CallEdge.json e.calls ++
  Json.optional "parentId" .str e.parentId ++
  listField "content" lineJson e.content ++
  flagField "contentTruncated" e.contentTruncated ++
  listField "contextBefore" lineJson e.before ++
  listField "contextAfter" lineJson e.after ++
  Json.optional "note" .str e.note

end Excerpt

end SourceIndex
