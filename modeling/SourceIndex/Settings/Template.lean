import SourceIndex.Settings.Basic

set_option autoImplicit false

/-! # The settings file of a new project

A file in which every setting is written down and commented out.
-/

namespace SourceIndex

namespace Settings

/-- The name of the settings file of a project. -/
def fileName : String := ".codebox.toml"

/-- The lines of a new settings file. -/
def templateLines : List String :=
  ["# Codebox Configuration", "",
   "[embedding]",
   "# provider = \"voyage\"          # voyage, openai or none",
   "# model = \"voyage-code-3\"",
   "# dimensions = 1024",
   "# batch_size = 64",
   "# max_in_flight = 4",
   "# timeout_secs = 30", "",
   "[index]",
   "# data_dir = \".codebox\"",
   "# max_file_size = 1048576",
   "# workers = 0",
   "# failure_threshold = 0.5",
   "# include_text = false",
   "# ignore_patterns = [\"node_modules\", \"target\", \".git\"]", "",
   "[profiles]",
   "# auto_large_files = 2000",
   "# auto_large_bytes = 67108864", "",
   "[search]",
   "# rrf_k = 60",
   "# default_limit = 10",
   "# candidate_window = 200",
   "# timeout_secs = 30", "",
   "[output]",
   "# preview_length = 200",
   "# max_content_length = 5000",
   "# hard_max_content_length = 100000", "",
   "[sync]",
   "# debounce_ms = 2000",
   "# max_batch = 10"]

/-- The text of a new settings file. -/
def template : String := "\n".intercalate templateLines ++ "\n"

end Settings

end SourceIndex
