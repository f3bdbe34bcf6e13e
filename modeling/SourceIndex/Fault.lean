import SourceIndex.Path

set_option autoImplicit false

/-! # Faults

The causes for which an operation fails, each with the component it comes from, whether trying
again can help, and its wording.
-/

namespace SourceIndex

/-- A long-running activity that can be cancelled or run out of time. -/
inductive Activity where
  | build
  | search
  | indexBuilder
  deriving DecidableEq, Repr, Inhabited

/-- The name of an activity. -/
def Activity.id : Activity → String
  | .build => "build"
  | .search => "search"
  | .indexBuilder => "index builder"

/-- The activity with a given name. -/
def Activity.ofId? (id : String) : Option Activity :=
  [Activity.build, .search, .indexBuilder].find? fun a => a.id == id

/-- Why an operation failed. -/
inductive Fault where
  /-- The file system refused. -/
  | io (text : String)
  /-- A setting is out of range. -/
  | config (text : String)
  | parse (text : String)
  /-- The index store refused. -/
  | store (text : String)
  | embedding (text : String)
  /-- Another build holds the lock of the directory. -/
  | buildInProgress (directory : Path)
  | failureThreshold (failed total : Nat)
  | cancelled (what : Activity)
  | timedOut (what : Activity)
  /-- Nothing was ever built for the project. -/
  | noIndex (root : Path)
  /-- A search mode has nothing to work with. -/
  | unavailable (mode reason : String)
  | invalidQuery (text : String)
  /-- The index holds vectors of another dimension. -/
  | dimensionMismatch (index requested : Nat)
  | watch (text : String)
  | serialization (text : String)
  | toml (text : String)
  | fileNotFound (path : Path)
  /-- A number does not fit into a machine word. -/
  | overflow (what : String)
  deriving DecidableEq, Repr, Inhabited

namespace Fault

/-- The wording of a fault. -/
def message : Fault → String
  | .io text => "IO error: " ++ text
  | .config text => "configuration error: " ++ text
  | .parse text => "parse error: " ++ text
  | .store text => "index store error: " ++ text
  | .embedding text => "embedding error: " ++ text
  | .buildInProgress directory => "a build is already in progress for " ++ directory.text
  | .failureThreshold failed total =>
    "build aborted: " ++ toString failed ++ " of " ++ toString total ++ " files failed"
  | .cancelled what => what.id ++ " cancelled"
  | .timedOut what => what.id ++ " timed out"
  | .noIndex root => "no index found for " ++ root.text
  | .unavailable mode reason => mode ++ " search unavailable: " ++ reason
  | .invalidQuery text => "invalid query: " ++ text
  | .dimensionMismatch index requested =>
    "index stores " ++ toString index ++ "-dimensional vectors but " ++ toString requested ++
      " were requested"
  | .watch text => "watch error: " ++ text
  | .serialization text => "serialization error: " ++ text
  | .toml text => "TOML parse error: " ++ text
  | .fileNotFound path => "file not found: " ++ path.text
  | .overflow what => what ++ " is too large"

/-- The component a fault comes from. -/
def component : Fault → String
  | .io _ | .fileNotFound _ => "filesystem"
  | .config _ | .toml _ => "config"
  | .parse _ => "chunker"
  | .store _ | .serialization _ => "index store"
  | .embedding _ => "embedding adapter"
  | .buildInProgress _ | .failureThreshold _ _ => "index builder"
  | .cancelled what | .timedOut what => what.id
  | .noIndex _ | .unavailable _ _ | .invalidQuery _ | .dimensionMismatch _ _ | .overflow _ =>
    "hybrid retriever"
  | .watch _ => "sync watcher"

/-- Whether trying again can help. -/
def isRetryable : Fault → Bool
  | .io _ | .store _ | .embedding _ | .buildInProgress _ | .timedOut _ | .unavailable _ _
  | .watch _ => true
  | _ => false

/-- A fault in one line. -/
def report (f : Fault) : String :=
  let tail := if f.isRetryable then "retryable" else "not retryable"
  "[" ++ f.component ++ "] " ++ f.message ++ " (" ++ tail ++ ")"

end Fault

end SourceIndex
