import SourceIndex.Excerpt.Basic
import SourceIndex.Numeric.Fixed

set_option autoImplicit false

/-! # Search responses

A response lists results, best first, each with the excerpt of its chunk. It is printed as
plain text, as Markdown or as JSON.
-/

namespace SourceIndex

/-- A chunk that was found. -/
structure SearchResult where
  /-- The position in the response, counted from one. -/
  rank : Nat
  chunkId : String
  /-- The fused score of a hybrid search, otherwise the score of the one ranking. -/
  score : Float
  vectorRank : Option Nat
  keywordRank : Option Nat
  vectorScore : Option Float
  keywordScore : Option Float
  excerpt : Excerpt
  deriving Inhabited

/-- What a search gives. -/
structure SearchResponse where
  query : String
  mode : SearchMode
  /-- The generation that was searched. -/
  generation : Nat
  /-- The dimension of the vectors that were compared; zero if there were none. -/
  dimension : Nat
  /-- How many chunks that could have been found have no vector. -/
  unembedded : Nat
  results : List SearchResult
  deriving Inhabited

/-! ## JSON -/

namespace SearchResult

/-- A result as an object; what a ranking does not have is left out. -/
def json (r : SearchResult) : Json :=
  .obj ([("rank", .natural r.rank), ("chunkId", .str r.chunkId), ("score", .real r.score)] ++
    Json.optional "vectorRank" .natural r.vectorRank ++
    Json.optional "keywordRank" .natural r.keywordRank ++
    Json.optional "vectorScore" .real r.vectorScore ++
    Json.optional "keywordScore" .real r.keywordScore ++ r.excerpt.fields)

end SearchResult

namespace SearchResponse

/-- A response as an object. -/
def json (r : SearchResponse) : Json :=
  .obj [("query", .str r.query), ("mode", .str r.mode.id), ("generationId", .int r.generation),
    ("dimension", .int r.dimension), ("unembeddedChunks", .int r.unembedded),
    ("results", .arr (r.results.map SearchResult.json))]

end SearchResponse

/-! ## Plain text -/

/-- Lines, each of them ended. -/
def endLines (lines : List String) : String :=
  "".intercalate (lines.map (· ++ "\n"))

/-- A number set to the right in a field of `width` characters. -/
def padNumber (width n : Nat) : String :=
  let digits := toString n
  "".pushn ' ' (width - digits.length) ++ digits

/-- A parameter as it is written in a signature. -/
def Parameter.text (p : Parameter) : String :=
  p.name ++ ((p.typeText.map fun t => ": " ++ t).getD "") ++
    ((p.default.map fun d => " = " ++ d).getD "")

namespace Excerpt

/-- The name of a chunk, or its dotted path if it has none. -/
def label (e : Excerpt) : String := e.name.getD e.fullPath

/-- The file and the lines of a chunk. -/
def place (e : Excerpt) : String :=
  e.path.text ++ ":" ++ toString e.startLine ++ "-" ++ toString e.endLine

/-- Numbered lines with a mark between number and text; the numbers are set to the right below
the last one. -/
def listing (mark : String) (ls : List NumberedLine) : List String :=
  let width := ((ls.getLast?.map fun l => (toString l.number).length)).getD 1
  ls.map fun l => "  " ++ padNumber width l.number ++ " " ++ mark ++ " " ++ l.text

/-- The lines below the heading of a result in plain text. -/
def textLines (e : Excerpt) : List String :=
  let labelled (label : String) (text : Option String) : List String :=
    (text.map fun t => "   " ++ label ++ t).toList
  let joined (label separator : String) (items : List String) : List String :=
    if items.isEmpty then [] else ["   " ++ label ++ separator.intercalate items]
  labelled "" e.signature ++ labelled "returns: " e.returnType ++ labelled "" e.summary ++
  joined "params: " ", " (e.parameters.map Parameter.text) ++
  joined "decorators: " " " e.decorators ++
  joined "calls: " ", " (e.calls.map fun c => c.callee ++ "@" ++ toString c.line) ++
  (if e.imports.isEmpty then [] else ["   imports: " ++ toString e.imports.length]) ++
  listing ":" e.before ++ listing "|" e.preview ++
  (if e.previewTruncated then ["  ..."] else []) ++
  listing "|" e.content ++
  (if e.contentTruncated then ["  ... (truncated, use --full-content)"] else []) ++
  listing ":" e.after ++ labelled "note: " e.note

end Excerpt

namespace SearchResult

/-- The lines of a result in plain text. -/
def textLines (r : SearchResult) : List String :=
  (toString r.rank ++ ". " ++ r.excerpt.place ++ " " ++ r.excerpt.label ++ " (" ++
    r.excerpt.kind.id ++ ") score " ++ Numeric.fixedText 4 r.score) ::
  r.excerpt.textLines ++ [""]

/-- The lines of a result in Markdown. -/
def markdownLines (r : SearchResult) : List String :=
  let e := r.excerpt
  let calls := e.calls.map fun c => "`" ++ c.callee ++ "` (line " ++ toString c.line ++ ")"
  let body := if e.content.isEmpty then e.preview else e.content
  ["## " ++ toString r.rank ++ ". `" ++ e.label ++ "` (" ++ e.kind.id ++ ")", "",
    "`" ++ e.place ++ "` score " ++ Numeric.fixedText 4 r.score, ""] ++
  ((e.signature.map fun s => ["**Signature:** `" ++ s ++ "`", ""]).getD []) ++
  ((e.summary.map fun s => ["> " ++ s, ""]).getD []) ++
  (if calls.isEmpty then [] else ["**Calls:** " ++ ", ".intercalate calls, ""]) ++
  ["```" ++ e.language] ++
  ((e.before ++ body ++ e.after).map fun l => padNumber 5 l.number ++ "  " ++ l.text) ++
  ["```", ""] ++
  ((e.note.map fun n => ["_Note: " ++ n ++ "_", ""]).getD [])

end SearchResult

namespace SearchResponse

/-- A response in plain text. -/
def text (r : SearchResponse) : String :=
  endLines ((if r.results.isEmpty then ["No results for '" ++ r.query ++ "'."] else []) ++
    r.results.flatMap SearchResult.textLines ++
    (if 0 < r.unembedded ∧ r.mode.needsVectors then
      [toString r.unembedded ++
        " chunk(s) have no embedding and were ranked by keyword only."]
    else []))

/-- A response in Markdown. -/
def markdown (r : SearchResponse) : String :=
  endLines (["# Search: " ++ r.query, "",
      "_" ++ r.mode.id ++ " mode, " ++ toString r.results.length ++ " result(s), generation " ++
        toString r.generation ++ "_", ""] ++
    r.results.flatMap SearchResult.markdownLines)

/-- A response in a given format. -/
def render (r : SearchResponse) (format : OutputFormat) : String :=
  match format with
  | .text => r.text
  | .markdown => r.markdown
  | .json => r.json.pretty

end SearchResponse

end SourceIndex
