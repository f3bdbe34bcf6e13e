import SourceIndex.Command.Invocation
import SourceIndex.Command.Report
import SourceIndex.Embedding.Service
import SourceIndex.Settings.Template
import SourceIndex.Watch.Watcher

set_option autoImplicit false

/-! # Running commands

What a command does to the files, and what it answers. Names of languages are checked before
anything else; then the settings are read, the model is chosen, and the project is opened.

* `Invocation.run`: a command from beginning to end.
* `Answer.text`: what is printed.
-/

namespace SourceIndex

/-- What a command finds around it. -/
structure Surroundings where
  /-- The directory that relative paths start from. -/
  here : Path
  /-- The values of variables. -/
  environment : String → Option String
  /-- How requests to a service travel. -/
  exchange : ServiceRequest → ServiceReply
  parse : Chunk.Parse
  /-- The time, in seconds. -/
  now : Nat

/-- Why a command gives no answer. -/
inductive Refusal where
  | fault (f : Fault)
  | unknownLanguage (name : String)
  /-- There is a settings file already. -/
  | settingsExist
  deriving DecidableEq, Repr, Inhabited

/-- The wording of a refusal. -/
def Refusal.message : Refusal → String
  | .fault f => f.report
  | .unknownLanguage name => "unknown language: " ++ name
  | .settingsExist => Settings.fileName ++ " already exists"

/-- What a command answers. -/
inductive Answer where
  /-- A settings file was written. -/
  | settingsWritten
  | built (r : BuildReport)
  | found (r : SearchResponse)
  | counted (s : ProjectStatistics)
  /-- A watch was started, after a first build if there was no index. -/
  | watching (first : Option BuildReport) (p : Project) (watcher : Watcher)

/-- What is printed for an answer that took some milliseconds. -/
def Answer.text (a : Answer) (format : OutputFormat) (elapsed : Nat) : String :=
  match a with
  | .settingsWritten => "Created " ++ Settings.fileName ++ " with default configuration\n"
  | .built r => r.render format elapsed
  | .found r => r.render format
  | .counted s => s.render format
  | .watching first _ _ => (first.map fun r => r.render format elapsed).getD ""

namespace Surroundings

/-- The first name that no language has. -/
def unknownLanguage? (names : List String) : Option String :=
  names.find? fun name => (Language.ofName? name).isNone

/-- The settings in a file. -/
def readSettings (t : FileTree) (path : Path) : Except Fault Settings :=
  match t.readText path with
  | .error o => .error o.fault
  | .ok text => Settings.ofText text

/-- The settings for a project: those of the file that is named, or else of the file in its
root, or else the defaults. -/
def settingsFor (x : Surroundings) (t : FileTree) (file : Option Path) (root : Path) :
    Except Fault Settings :=
  match file with
  | some file => readSettings t (x.here.join file)
  | none =>
    let file := (x.here.join root).join ⟨Settings.fileName⟩
    if t.holds file then readSettings t file else .ok {}

/-- The model that settings name. -/
def modelFor (x : Surroundings) (s : Settings) : Except Fault (Option EmbeddingModel) :=
  match EmbeddingService.ofSettings s.embedding x.environment with
  | .ok service => .ok (service.map fun service => service.model x.exchange)
  | .error f => .error f

/-- Opens the project at a path. -/
def openProject (x : Surroundings) (w : Workspace) (file : Option Path) (root : Path) :
    Workspace × Except Fault Project :=
  let prepared := do
    let settings ← x.settingsFor w.tree file root
    return (settings, ← x.modelFor settings)
  match prepared with
  | .error f => (w, .error f)
  | .ok (settings, model) => Project.openAt w (x.here.join root) settings model

/-- Writes a settings file. -/
def writeTemplate (x : Surroundings) (w : Workspace) : Workspace × Except Refusal Answer :=
  let file := x.here.join ⟨Settings.fileName⟩
  if w.tree.holds file then (w, .error .settingsExist)
  else
    match w.tree.write file (.file Settings.template.toUTF8) with
    | .ok tree => ({ w with tree }, .ok .settingsWritten)
    | .error o => (w, .error (.fault o.fault))

/-- What is left after a step, and its answer. -/
def conclude {α : Type} (step : Project.Step α) (answer : α → Answer) :
    Workspace × Except Refusal Answer :=
  (step.workspace,
    match step.answer with
    | .ok a => .ok (answer a)
    | .error f => .error (.fault f))

/-- The request of a search. -/
def request (s : Settings) (o : SearchOptions) : SearchRequest :=
  let output := OutputOptions.ofSettings s.output
  let r : SearchRequest :=
    { query := o.query
      mode := o.mode
      limit := o.limit
      profile := o.profile
      output :=
        { output with
          mode := o.outputMode
          fullContent := o.fullContent
          context := o.context
          previewLength := o.previewLength.getD output.previewLength } }
  r.withLanguage o.language

/-- Starts a watch, after a first build if there is no index. -/
def startWatch (x : Surroundings) (w : Workspace) (p : Project) :
    Workspace × Except Refusal Answer :=
  let watch (w : Workspace) (p : Project) (first : Option BuildReport) :
      Workspace × Except Refusal Answer :=
    match Watcher.start w.tree p with
    | .ok watcher => (w, .ok (.watching first p watcher))
    | .error f => (w, .error (.fault f))
  match p.current with
  | some _ => watch w p none
  | none =>
    let step := p.build w x.parse .full { now := x.now }
    match step.answer with
    | .ok built => watch step.workspace step.project (some built.report)
    | .error f => (step.workspace, .error (.fault f))

end Surroundings

namespace Invocation

/-- Runs a command on an open project. -/
def runIn (i : Invocation) (x : Surroundings) (w : Workspace) (p : Project) :
    Workspace × Except Refusal Answer :=
  match i.command with
  | .init => x.writeTemplate w
  | .index _ profile languages =>
    let languages := if languages.isEmpty then none else some languages
    Surroundings.conclude (p.build w x.parse .full { profile, languages, now := x.now })
      fun built => .built built.report
  | .sync _ =>
    Surroundings.conclude (p.build w x.parse (.incremental none) { now := x.now })
      fun built => .built built.report
  | .search _ o => Surroundings.conclude (p.search w (Surroundings.request p.settings o)) .found
  | .stats _ => Surroundings.conclude (p.statistics w) .counted
  | .watch _ => x.startWatch w p

/-- The names of languages in a command. -/
def languages : Command → List String
  | .index _ _ languages => languages
  | .search _ o => o.language.toList
  | _ => []

/-- The root of the project that a command is about. -/
def root? : Command → Option Path
  | .init => none
  | .index root _ _ | .sync root | .search root _ | .stats root | .watch root => some root

/-- Runs a command. -/
def run (i : Invocation) (x : Surroundings) (w : Workspace) :
    Workspace × Except Refusal Answer :=
  match root? i.command with
  | none => x.writeTemplate w
  | some root =>
    match Surroundings.unknownLanguage? (languages i.command) with
    | some name => (w, .error (.unknownLanguage name))
    | none =>
      match x.openProject w i.settings root with
      | (w, .error f) => (w, .error (.fault f))
      | (w, .ok p) => i.runIn x w p

end Invocation

end SourceIndex
