import SourceIndex.Text.Lowercase

set_option autoImplicit false

/-! # Named choices

Choices a user names: the format of printed results, how much a result tells, how a search
ranks, and how large the chunks are. A name is read in any case; some choices have a second
name.
-/

namespace SourceIndex

/-- The choice with a name among the names given to choices, or the wording of the failure. -/
def chooseByName {α : Type} (what : String) (names : List (String × α)) (text : String) :
    Except String α :=
  let name := Text.lowercase text
  match names.find? (·.1 == name) with
  | some (_, choice) => .ok choice
  | none => .error ("unknown " ++ what ++ ": " ++ name)

/-- How results are printed. -/
inductive OutputFormat where
  | text
  | json
  | markdown
  deriving DecidableEq, Repr, Inhabited

namespace OutputFormat

/-- The name of a format. -/
def id : OutputFormat → String
  | .text => "text"
  | .json => "json"
  | .markdown => "markdown"

/-- The format with a given name. -/
def ofText (text : String) : Except String OutputFormat :=
  chooseByName "output format"
    [("text", .text), ("json", .json), ("markdown", .markdown), ("md", .markdown)] text

end OutputFormat

/-- How much a result tells about its chunk. -/
inductive OutputMode where
  | compact
  | standard
  | verbose
  deriving DecidableEq, Repr

namespace OutputMode

instance : Inhabited OutputMode := ⟨.standard⟩

/-- The name of a mode. -/
def id : OutputMode → String
  | .compact => "compact"
  | .standard => "standard"
  | .verbose => "verbose"

/-- The mode with a given name. -/
def ofText (text : String) : Except String OutputMode :=
  chooseByName "output mode"
    [("compact", .compact), ("standard", .standard), ("verbose", .verbose)] text

end OutputMode

/-- How a search ranks. -/
inductive SearchMode where
  /-- By the similarity of vectors. -/
  | vector
  /-- By the words of the query. -/
  | keyword
  /-- By both. -/
  | hybrid
  deriving DecidableEq, Repr

namespace SearchMode

instance : Inhabited SearchMode := ⟨.hybrid⟩

/-- The name of a mode. -/
def id : SearchMode → String
  | .vector => "vector"
  | .keyword => "keyword"
  | .hybrid => "hybrid"

/-- Whether a search of this mode needs vectors. -/
def needsVectors : SearchMode → Bool
  | .keyword => false
  | .vector | .hybrid => true

/-- The mode with a given name. -/
def ofText (text : String) : Except String SearchMode :=
  chooseByName "search mode"
    [("vector", .vector), ("semantic", .vector), ("keyword", .keyword), ("lexical", .keyword),
     ("hybrid", .hybrid)] text

end SearchMode

/-- The profile asked for. -/
inductive ProfileName where
  /-- The one that fits the size of the project. -/
  | auto
  | medium
  | large
  deriving DecidableEq, Repr, Inhabited

namespace ProfileName

/-- The name of a profile. -/
def id : ProfileName → String
  | .auto => "auto"
  | .medium => "medium"
  | .large => "large"

/-- The profile with a given name. -/
def ofText (text : String) : Except String ProfileName :=
  chooseByName "profile" [("auto", .auto), ("medium", .medium), ("large", .large)] text

end ProfileName

end SourceIndex
