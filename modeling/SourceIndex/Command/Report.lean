import SourceIndex.Project.Basic

set_option autoImplicit false

/-! # Reports for a reader

The numbers of a build and of an index in plain text, in Markdown and as JSON.

* `BuildReport.render`, `ProjectStatistics.render`: a report in a given format.
-/

namespace SourceIndex

/-- A table in Markdown with a row for each metric. -/
def metricTable (rows : List (String × String)) : List String :=
  ["| Metric | Value |", "|--------|-------|"] ++
    rows.map fun (name, value) => "| " ++ name ++ " | " ++ value ++ " |"

namespace BuildReport

/-- The lines of a report in plain text. -/
def textLines (r : BuildReport) (elapsed : Nat) : List String :=
  [(if r.incremental then "Synced " else "Indexed ") ++ toString r.files ++ " files into " ++
      toString r.chunks ++ " chunks (generation " ++ toString r.generation ++ ", profile " ++
      r.profile.id ++ ", " ++ toString elapsed ++ " ms)",
    "  rebuilt " ++ toString r.rebuilt ++ ", reused " ++ toString r.reused ++ ", removed " ++
      toString r.removed ++ ", failed " ++ toString r.failed ++ ", degraded " ++
      toString r.degraded,
    if r.dimension = 0 then "  embeddings disabled; keyword search only"
    else "  " ++ toString r.embedded ++ " of " ++ toString r.chunks ++
      " chunks embedded at dimension " ++ toString r.dimension]

/-- The lines of a report in Markdown. -/
def markdownLines (r : BuildReport) (elapsed : Nat) : List String :=
  ["## Generation " ++ toString r.generation, ""] ++
  metricTable
    [("Profile", r.profile.id), ("Dimension", toString r.dimension), ("Files", toString r.files),
     ("Rebuilt", toString r.rebuilt), ("Reused", toString r.reused),
     ("Removed", toString r.removed), ("Failed", toString r.failed),
     ("Degraded", toString r.degraded), ("Chunks", toString r.chunks),
     ("Embedded", toString r.embedded), ("Time", toString elapsed ++ " ms")]

/-- A report of a build that took some milliseconds. -/
def render (r : BuildReport) (format : OutputFormat) (elapsed : Nat) : String :=
  match format with
  | .text => endLines (r.textLines elapsed)
  | .markdown => endLines (r.markdownLines elapsed)
  | .json => (r.json elapsed).pretty ++ "\n"

end BuildReport

namespace ProjectStatistics

/-- The name of the model of the index. -/
def modelText (s : ProjectStatistics) : String := s.facts.model.getD "none"

/-- A line for the parts of a whole, if there are any. -/
def partsLine (label : String) (parts : List (String × Nat)) : List String :=
  if parts.isEmpty then []
  else [label ++ ", ".intercalate (parts.map fun (name, n) => name ++ " " ++ toString n)]

/-- The lines of the numbers in plain text. -/
def textLines (s : ProjectStatistics) : List String :=
  ["Index: " ++ s.root.text,
    "  Generation:  " ++ toString s.generation ++ " (schema " ++ toString s.facts.schema ++ ")",
    "  Files:       " ++ toString s.counts.files,
    "  Chunks:      " ++ toString s.counts.chunks,
    "  Embedded:    " ++ toString s.counts.embedded,
    "  Degraded:    " ++ toString s.counts.degraded,
    "  Profile:     " ++ s.facts.profile.name.id,
    "  Dimension:   " ++ toString s.facts.dimension,
    "  Model:       " ++ s.modelText,
    "  Size:        " ++ Numeric.fixedText 1 (Float.ofNat s.size / 1024) ++ " KiB"] ++
  partsLine "  Languages:   " s.counts.languages ++ partsLine "  Kinds:       " s.counts.kinds

/-- The lines of the numbers in Markdown. -/
def markdownLines (s : ProjectStatistics) : List String :=
  let items (parts : List (String × Nat)) : List String :=
    parts.map fun (name, n) => "- " ++ name ++ ": " ++ toString n
  ["## Index statistics", ""] ++
  metricTable
    [("Generation", toString s.generation), ("Schema", toString s.facts.schema),
     ("Files", toString s.counts.files), ("Chunks", toString s.counts.chunks),
     ("Embedded", toString s.counts.embedded), ("Profile", s.facts.profile.name.id),
     ("Dimension", toString s.facts.dimension), ("Model", s.modelText),
     ("Size", toString s.size ++ " bytes")] ++
  ["", "### Languages", ""] ++ items s.counts.languages ++
  ["", "### Kinds", ""] ++ items s.counts.kinds

/-- The numbers in a given format. -/
def render (s : ProjectStatistics) (format : OutputFormat) : String :=
  match format with
  | .text => endLines s.textLines
  | .markdown => endLines s.markdownLines
  | .json => s.json.pretty ++ "\n"

/-- What the reader is warned of. -/
def warning? (s : ProjectStatistics) : Option String :=
  if s.modelMismatch then
    some ("warning: index was built with " ++ s.modelText ++ " but " ++
      s.configuredModel.getD "no embedder" ++
      " is configured; run `codebox index` to use vector search")
  else none

end ProjectStatistics

end SourceIndex
