import SourceIndex.Chunk.Window
import SourceIndex.Fault
import SourceIndex.Toml.Read

set_option autoImplicit false

/-! # Settings

The settings of a project, in six sections with a default for every one of them, and how they
are read from TOML. Unknown keys are passed over; a key of the wrong type is a TOML fault, and
a value out of range a configuration fault.

* `Settings.ofText`: the settings a text spells.
* `Settings.check`: the ranges, in the order in which they are reported.
* `Settings.dataDirectory`: where the index of a project lies.
-/

namespace SourceIndex

namespace Settings

/-! ## Sections -/

/-- How embeddings are made. -/
structure Embedding where
  provider : String := "voyage"
  apiKey : Option String := none
  baseUrl : Option String := none
  model : String := "voyage-code-3"
  dimensions : Nat := 1024
  batchSize : Nat := 64
  /-- How many batches may be under way at once. -/
  maxInFlight : Nat := 4
  timeoutSeconds : Nat := 30
  deriving DecidableEq, Repr, Inhabited

/-- The name of the directory that holds an index unless another one is set. -/
def defaultDataDirectory : String := ".codebox"

/-- The patterns of names that are not indexed unless others are set. -/
def defaultIgnorePatterns : List String :=
  ["__pycache__", "*.pyc", ".git", "node_modules", ".next", "dist", "build", ".vscode", ".idea",
   "*.min.js", "*.min.css", "venv", "env", ".env", "target", defaultDataDirectory]

/-- What is indexed and where the index lies. -/
structure Index where
  dataDirectory : Option Path := none
  maxFileSize : Nat := 1048576
  ignorePatterns : List String := defaultIgnorePatterns
  workers : Nat := 0
  /-- The share of unreadable files above which a build gives up. -/
  failureThreshold : Float := 0.5
  /-- Whether plain text is indexed. -/
  includeText : Bool := false
  deriving Inhabited

/-- How a profile cuts files, and the dimension of its vectors if it sets one. -/
structure ProfileParams extends ChunkLimits where
  dimension : Option Nat
  deriving DecidableEq, Repr, Inhabited

/-- The profiles, and when `auto` means the large one. -/
structure Profiles where
  autoLargeFiles : Nat := 2000
  autoLargeBytes : Nat := 64 * 1024 * 1024
  medium : ProfileParams := ⟨⟨120, 3, 40, 5⟩, none⟩
  large : ProfileParams := ⟨⟨240, 5, 80, 8⟩, some 256⟩
  deriving DecidableEq, Repr, Inhabited

/-- How a search ranks. -/
structure Search where
  /-- The constant of reciprocal rank fusion. -/
  fusionConstant : Nat := 60
  defaultLimit : Nat := 10
  /-- How many entries of each list are fused at least. -/
  candidateWindow : Nat := 200
  timeoutSeconds : Nat := 30
  deriving DecidableEq, Repr, Inhabited

/-- How much of a chunk is shown, in characters. -/
structure Output where
  previewLength : Nat := 200
  maxContentLength : Nat := 5000
  hardMaxContentLength : Nat := 100000
  deriving DecidableEq, Repr, Inhabited

/-- How changes are gathered. -/
structure Sync where
  debounceMilliseconds : Nat := 2000
  maxBatch : Nat := 10
  deriving DecidableEq, Repr, Inhabited

end Settings

/-- The settings of a project. -/
structure Settings where
  embedding : Settings.Embedding := {}
  index : Settings.Index := {}
  profiles : Settings.Profiles := {}
  search : Settings.Search := {}
  output : Settings.Output := {}
  sync : Settings.Sync := {}
  deriving Inhabited

namespace Settings

/-! ## Reading values -/

/-- A text. -/
def text? : Toml → Option String
  | .str s => some s
  | _ => none

/-- A flag. -/
def flag? : Toml → Option Bool
  | .bool b => some b
  | _ => none

/-- A natural number. -/
def nat? : Toml → Option Nat
  | .int n => if 0 ≤ n then some n.toNat else none
  | _ => none

/-- A natural number of 32 bits. -/
def nat32? (v : Toml) : Option Nat :=
  (nat? v).bind fun n => if n < UInt32.size then some n else none

/-- A real number, which may be written as an integer. -/
def real? : Toml → Option Float
  | .int n => some (Float.ofInt n)
  | .real x => some x
  | _ => none

/-- A list of texts. -/
def texts? : Toml → Option (List String)
  | .array items => items.mapM text?
  | _ => none

/-- The value of a key, or its default. -/
def keyOr {α : Type} (fields : Toml.Fields) (key : String) (read? : Toml → Option α)
    (default : α) : Option α :=
  match Toml.find? fields key with
  | none => some default
  | some v => read? v

/-- The value of a key that may be absent. -/
def keyOption {α : Type} (fields : Toml.Fields) (key : String) (read? : Toml → Option α) :
    Option (Option α) :=
  keyOr fields key (fun v => (read? v).map some) none

/-- The value of a key that must be there. -/
def keyNeeded {α : Type} (fields : Toml.Fields) (key : String) (read? : Toml → Option α) :
    Option α :=
  (Toml.find? fields key).bind read?

/-- The fields of a section. Values may stand in a list in the order of the keys, `least` of
them at least. -/
def sectionFields? (keys : List String) (least : Nat) : Toml → Option Toml.Fields
  | .table _ fields | .inline _ fields => some fields
  | .moment => some []
  | .array items => if least ≤ items.length then some (keys.zip items) else none
  | .tables elements =>
    if least ≤ elements.length then
      some (keys.zip (elements.reverse.map (Toml.table .explicit)))
    else none
  | _ => none

/-! ## Reading sections -/

/-- The section on embeddings. -/
def Embedding.read? (v : Toml) : Option Embedding := do
  let d : Embedding := {}
  let keys := ["provider", "api_key", "base_url", "model", "dimensions", "batch_size",
    "max_in_flight", "timeout_secs"]
  let fields ← sectionFields? keys 3 v
  return {
    provider := ← keyOr fields "provider" text? d.provider
    apiKey := ← keyOption fields "api_key" text?
    baseUrl := ← keyOption fields "base_url" text?
    model := ← keyOr fields "model" text? d.model
    dimensions := ← keyOr fields "dimensions" nat? d.dimensions
    batchSize := ← keyOr fields "batch_size" nat? d.batchSize
    maxInFlight := ← keyOr fields "max_in_flight" nat? d.maxInFlight
    timeoutSeconds := ← keyOr fields "timeout_secs" nat? d.timeoutSeconds }

/-- The section on the index. -/
def Index.read? (v : Toml) : Option Index := do
  let d : Index := {}
  let keys := ["data_dir", "max_file_size", "ignore_patterns", "workers", "failure_threshold",
    "include_text"]
  let fields ← sectionFields? keys 1 v
  return {
    dataDirectory := (← keyOption fields "data_dir" text?).map Path.mk
    maxFileSize := ← keyOr fields "max_file_size" nat? d.maxFileSize
    ignorePatterns := ← keyOr fields "ignore_patterns" texts? d.ignorePatterns
    workers := ← keyOr fields "workers" nat? d.workers
    failureThreshold := ← keyOr fields "failure_threshold" real? d.failureThreshold
    includeText := ← keyOr fields "include_text" flag? d.includeText }

/-- The parameters of a profile, all of which but the dimension must be there. -/
def ProfileParams.read? (v : Toml) : Option ProfileParams := do
  let keys := ["max_chunk_lines", "min_chunk_lines", "window_lines", "window_overlap", "dimension"]
  let fields ← sectionFields? keys 5 v
  return {
    maxLines := ← keyNeeded fields "max_chunk_lines" nat?
    minLines := ← keyNeeded fields "min_chunk_lines" nat?
    windowLines := ← keyNeeded fields "window_lines" nat?
    windowOverlap := ← keyNeeded fields "window_overlap" nat?
    dimension := ← keyOption fields "dimension" nat? }

/-- The section on profiles. -/
def Profiles.read? (v : Toml) : Option Profiles := do
  let d : Profiles := {}
  let fields ← sectionFields? ["auto_large_files", "auto_large_bytes", "medium", "large"] 0 v
  return {
    autoLargeFiles := ← keyOr fields "auto_large_files" nat? d.autoLargeFiles
    autoLargeBytes := ← keyOr fields "auto_large_bytes" nat? d.autoLargeBytes
    medium := ← keyOr fields "medium" ProfileParams.read? d.medium
    large := ← keyOr fields "large" ProfileParams.read? d.large }

/-- The section on searches. -/
def Search.read? (v : Toml) : Option Search := do
  let d : Search := {}
  let fields ← sectionFields? ["rrf_k", "default_limit", "candidate_window", "timeout_secs"] 0 v
  return {
    fusionConstant := ← keyOr fields "rrf_k" nat32? d.fusionConstant
    defaultLimit := ← keyOr fields "default_limit" nat? d.defaultLimit
    candidateWindow := ← keyOr fields "candidate_window" nat? d.candidateWindow
    timeoutSeconds := ← keyOr fields "timeout_secs" nat? d.timeoutSeconds }

/-- The section on output. -/
def Output.read? (v : Toml) : Option Output := do
  let d : Output := {}
  let keys := ["preview_length", "max_content_length", "hard_max_content_length"]
  let fields ← sectionFields? keys 0 v
  return {
    previewLength := ← keyOr fields "preview_length" nat? d.previewLength
    maxContentLength := ← keyOr fields "max_content_length" nat? d.maxContentLength
    hardMaxContentLength := ← keyOr fields "hard_max_content_length" nat? d.hardMaxContentLength }

/-- The section on gathering changes. -/
def Sync.read? (v : Toml) : Option Sync := do
  let d : Sync := {}
  let fields ← sectionFields? ["debounce_ms", "max_batch"] 0 v
  return {
    debounceMilliseconds := ← keyOr fields "debounce_ms" nat? d.debounceMilliseconds
    maxBatch := ← keyOr fields "max_batch" nat? d.maxBatch }

/-- The settings in a document. -/
def read? (document : Toml.Fields) : Option Settings := do
  return {
    embedding := ← keyOr document "embedding" Embedding.read? {}
    index := ← keyOr document "index" Index.read? {}
    profiles := ← keyOr document "profiles" Profiles.read? {}
    search := ← keyOr document "search" Search.read? {}
    output := ← keyOr document "output" Output.read? {}
    sync := ← keyOr document "sync" Sync.read? {} }

/-! ## Ranges -/

/-- Whether the parameters of a profile fit together. -/
def ProfileParams.check (name : String) (p : ProfileParams) : Except Fault Unit :=
  if p.maxLines < p.minLines then
    .error (.config ("profiles." ++ name ++ ": min_chunk_lines exceeds max_chunk_lines"))
  else if p.windowLines = 0 ∨ p.windowLines ≤ p.windowOverlap then
    .error (.config
      ("profiles." ++ name ++ ": window_overlap must be smaller than a non-zero window_lines"))
  else .ok ()

/-- Whether all settings are in range. -/
def check (s : Settings) : Except Fault Unit := do
  if s.search.fusionConstant = 0 then
    throw (.config "search.rrf_k must be positive")
  if !(0.0 ≤ s.index.failureThreshold && s.index.failureThreshold ≤ 1.0) then
    throw (.config "index.failure_threshold must be between 0 and 1")
  s.profiles.medium.check "medium"
  s.profiles.large.check "large"

/-- The settings a text spells, if they are in range. -/
def ofText (text : String) : Except Fault Settings :=
  match (Toml.read? text).bind read? with
  | none => .error (.toml "invalid document")
  | some s =>
    match s.check with
    | .ok () => .ok s
    | .error f => .error f

/-- The directory that holds the index of the project at `root`. -/
def dataDirectory (s : Settings) (root : Path) : Path :=
  match s.index.dataDirectory with
  | some d => root.join d
  | none => root.join ⟨defaultDataDirectory⟩

end Settings

end SourceIndex
