import SourceIndex.Chunk.Facts
import SourceIndex.Chunk.Segment
import SourceIndex.Chunk.Split
import SourceIndex.Chunk.Window

set_option autoImplicit false

/-! # The chunks of a file

The segments of a file become chunks, and so do the children of definitions that are too
large. The chunks are drafted as a forest and then listed in pre-order; a chunk whose id has
occurred before gets its count as a suffix.

* `Chunk.drafts`: the forest of a file's chunks.
* `Draft.list`: the forest in pre-order, with ids and parents.
* `Chunk.ofFile`: the chunks of a file with or without a usable syntax tree.
-/

namespace SourceIndex

/-- A chunk with its children, none of them with a parent yet. -/
inductive Draft where
  | mk (chunk : Chunk) (children : List Draft)

namespace Draft

/-- An id made different from those seen before: its count is its suffix from the second time
on. -/
def freshId (seen : List String) (id : String) : String :=
  let count := seen.count id + 1
  if 1 < count then id ++ "#" ++ toString count else id

mutual

/-- The chunks of a draft in pre-order, and the ids seen with its own. -/
def list (parent : Option String) (seen : List String) : Draft → List Chunk × List String
  | .mk c ds =>
    let id := freshId seen c.id
    let (below, seen) := listAll (some id) (c.id :: seen) ds
    ({ c with id, parentId := parent } :: below, seen)

/-- The chunks of drafts with the same parent. -/
def listAll (parent : Option String) (seen : List String) : List Draft → List Chunk × List String
  | [] => ([], seen)
  | d :: ds =>
    let (cs, seen) := list parent seen d
    let (rest, seen) := listAll parent seen ds
    (cs ++ rest, seen)

end

end Draft

namespace Chunk

/-- What the chunks of a file are made from. -/
structure Context where
  file : SourceFile
  rules : Rules
  limits : ChunkLimits
  lines : List String
  facts : FileFacts

namespace Context

/-- The text of the file. -/
def source (x : Context) : String := x.file.content

/-- The last row of the file. -/
def lastRow (x : Context) : Nat := x.lines.length - 1

/-- The text of rows, as far as the file has them. -/
def rowsText (x : Context) (first last : Nat) : String :=
  Text.unlines (Child.rows x.lines first (min last x.lastRow + 1))

/-- A chunk of rows of the file with what all its chunks share. -/
def baseChunk (x : Context) (kind : ChunkKind) (first last : Nat) (content : String) : Chunk :=
  { make x.file.path x.file.language.id kind content (first + 1) (last + 1) with
    fileHash := x.file.contentHash
    imports := x.facts.imports }

/-- The calls in the given trees outside the excluded subtrees. -/
def calls (x : Context) (excluded : List Nat) (roots : List Node) : List CallEdge :=
  callsIn x.rules x.source x.facts.callables excluded roots

/-- The chunk with what the definition at a site says about itself. -/
def describe (x : Context) (s : Site) (c : Chunk) : Chunk :=
  { c with
    signature := s.definition.signature? x.source
    parameters := x.rules.parameters x.source s
    returnType := x.rules.returnType? x.source s
    docstring := x.rules.docstring? x.source s
    decorators := x.rules.decorators x.source s }

end Context

/-- The kind of a definition's chunk under a parent of the given kind. -/
def kindOf (role : Role) (parent : Option ChunkKind) : ChunkKind :=
  match role with
  | .container => .container
  | .method => .method
  | .function => if parent = some .container then .method else .function

/-- The dotted path of a definition at the top of a file. -/
def topPath (path : Path) (receiver : Option String) (name : String) : String :=
  match receiver with
  | some r => modulePath path ++ "." ++ r ++ "." ++ name
  | none => modulePath path ++ "." ++ name

/-- The chunk of a statement window under the definition with the dotted path `scope`. -/
def windowChunk (x : Context) (scope : String) (depth : Nat) (statements : List Node)
    (first last : Nat) : Chunk :=
  let c := (x.baseChunk .window first last (x.rowsText first last)).rename
    (scope ++ "@" ++ toString (first + 1))
  { c with depth, calls := x.calls [] statements }

/-- The draft of a definition with the given rows; `fullPath` and `kind` depend on what
encloses it. -/
def definitionDraft (x : Context) (site : Site) (first last : Nat) (fullPath : String)
    (kind : ChunkKind) (depth : Nat) : Draft :=
  let children : List (Child site.outer) :=
    if x.limits.maxLines < last - first + 1 then
      Child.planChildren x.rules x.source x.limits.maxLines site.definition
    else []
  let content :=
    if children.isEmpty then x.rowsText first last else Child.elided x.lines first last children
  let base := x.describe site ((x.baseChunk kind first last content).rename fullPath)
  let chunk : Chunk :=
    { base with
      name := some site.definition.name
      depth
      calls := x.calls (children.flatMap Child.nodeIds) [site.outer] }
  let below := children.map fun
    | .definition s _ start stop =>
      definitionDraft x s start stop (fullPath ++ "." ++ s.definition.name)
        (kindOf s.definition.role (some kind)) (depth + 1)
    | .window statements start stop =>
      .mk (windowChunk x fullPath (depth + 1) statements start stop) []
  .mk chunk below
termination_by sizeOf site.outer

/-- The draft of a segment. -/
def segmentDraft (x : Context) (s : Segment) : Draft :=
  match s.piece with
  | .definition site =>
    let d := site.definition
    definitionDraft x site s.start s.stop (topPath x.file.path d.receiver d.name)
      (kindOf d.role none) 0
  | .statements => .mk (x.baseChunk .module s.start s.stop (x.rowsText s.start s.stop)) []

/-- The forest of the chunks of a file with the given tree. -/
def drafts (x : Context) (root : Node) : List Draft :=
  (Segment.layout x.rules x.source x.limits.maxLines x.limits.minLines x.lastRow root).map
    (segmentDraft x)

/-- The chunks of a file with the given tree, in pre-order. -/
def ofTree (rules : Rules) (file : SourceFile) (limits : ChunkLimits) (root : Node) : List Chunk :=
  let x : Context :=
    { file, rules, limits
      lines := Text.lines file.content
      facts := FileFacts.ofTree rules file.content root }
  (Draft.listAll none [] (drafts x root)).1

/-- The chunks of a file, and whether it should have had a syntax tree but has none. -/
structure Outcome where
  chunks : List Chunk
  degraded : Bool
  deriving Inhabited

/-- What parses a text of a language; it fails on a text with errors. -/
abbrev Parse := Language → String → Option Node

/-- The chunks of a file: none for a blank text, those of the syntax tree if there is one, and
line windows otherwise. -/
def ofFile (parse : Parse) (file : SourceFile) (limits : ChunkLimits) : Outcome :=
  if Text.isBlankText file.content then ⟨[], false⟩
  else
    match Rules.ofLanguage? file.language with
    | none => ⟨windows file limits, false⟩
    | some rules =>
      match parse file.language file.content with
      | none => ⟨windows file limits, true⟩
      | some root => ⟨ofTree rules file limits root, false⟩

end Chunk

end SourceIndex
