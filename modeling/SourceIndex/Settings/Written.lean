import SourceIndex.Json.Fields
import SourceIndex.Profile

set_option autoImplicit false

/-! # Written settings

Settings and profiles as JSON objects, under the names they have in a settings file.
-/

namespace SourceIndex

namespace Settings

/-- Chunk limits and dimension as an object. -/
def ProfileParams.json (p : ProfileParams) : Json :=
  .obj [("max_chunk_lines", .natural p.maxLines), ("min_chunk_lines", .natural p.minLines),
    ("window_lines", .natural p.windowLines), ("window_overlap", .natural p.windowOverlap),
    ("dimension", Json.ofOption .natural p.dimension)]

/-- The chunk limits of an object. -/
def ProfileParams.ofJson? (j : Json) : Option ProfileParams := do
  return {
    maxLines := ← j.naturalAt? "max_chunk_lines"
    minLines := ← j.naturalAt? "min_chunk_lines"
    windowLines := ← j.naturalAt? "window_lines"
    windowOverlap := ← j.naturalAt? "window_overlap"
    dimension := j.naturalAt? "dimension" }

/-- The section on embeddings as an object. -/
def Embedding.json (s : Embedding) : Json :=
  .obj [("provider", .str s.provider), ("api_key", Json.ofOption .str s.apiKey),
    ("base_url", Json.ofOption .str s.baseUrl), ("model", .str s.model),
    ("dimensions", .natural s.dimensions), ("batch_size", .natural s.batchSize),
    ("max_in_flight", .natural s.maxInFlight), ("timeout_secs", .natural s.timeoutSeconds)]

/-- The section on the index as an object. -/
def Index.json (s : Index) : Json :=
  .obj [("data_dir", Json.ofOption .str (s.dataDirectory.map Path.text)),
    ("max_file_size", .natural s.maxFileSize),
    ("ignore_patterns", Json.strings s.ignorePatterns), ("workers", .natural s.workers),
    ("failure_threshold", .real s.failureThreshold), ("include_text", .bool s.includeText)]

/-- The section on profiles as an object. -/
def Profiles.json (s : Profiles) : Json :=
  .obj [("auto_large_files", .natural s.autoLargeFiles),
    ("auto_large_bytes", .natural s.autoLargeBytes), ("medium", s.medium.json),
    ("large", s.large.json)]

/-- All settings as an object. -/
def json (s : Settings) : Json :=
  .obj [("embedding", s.embedding.json), ("index", s.index.json), ("profiles", s.profiles.json),
    ("search", .obj [("rrf_k", .natural s.search.fusionConstant),
      ("default_limit", .natural s.search.defaultLimit),
      ("candidate_window", .natural s.search.candidateWindow),
      ("timeout_secs", .natural s.search.timeoutSeconds)]),
    ("output", .obj [("preview_length", .natural s.output.previewLength),
      ("max_content_length", .natural s.output.maxContentLength),
      ("hard_max_content_length", .natural s.output.hardMaxContentLength)]),
    ("sync", .obj [("debounce_ms", .natural s.sync.debounceMilliseconds),
      ("max_batch", .natural s.sync.maxBatch)])]

end Settings

namespace Profile

/-- A profile as an object. -/
def json (p : Profile) : Json :=
  .obj [("name", .str p.name.id), ("params", p.params.json), ("dimension", .natural p.dimension)]

/-- The profile of an object. -/
def ofJson? (j : Json) : Option Profile := do
  return {
    name := ← (j.stringAt? "name").bind fun name => (ProfileName.ofText name).toOption
    params := ← (j.given? "params").bind Settings.ProfileParams.ofJson?
    dimension := ← j.naturalAt? "dimension" }

end Profile

end SourceIndex
