import SourceIndex.Command.Run

set_option autoImplicit false

/-! # The program

Standard input names the files that the program works with, one a line, as `find . -type f`
prints them; an empty line ends them. They are read into a tree of files, the command runs on
the tree, and the files it changed are written back. A watch goes on to read the paths that
change, one a line.

The program holds no grammars and no connection to a service: sources are cut into windows, and
requests are refused.
-/

namespace SourceIndex

namespace Program

/-- A line of a stream without its end; nothing at the end of the stream. -/
def readLine (stream : IO.FS.Stream) : IO (Option String) := do
  let line ← stream.getLine
  return if line.isEmpty then none else some (Text.trimRightWhere (· == '\n') line)

/-- The lines of a stream up to an empty one. -/
partial def readLines (stream : IO.FS.Stream) : IO (List String) := do
  match ← readLine stream with
  | none | some "" => return []
  | some line => return line :: (← readLines stream)

/-- What lies in a file with some bytes. -/
def itemOfBytes (bytes : ByteArray) : FileItem :=
  match (String.fromUTF8? bytes).bind Store.ofText? with
  | some store => .index store
  | none => .file bytes

/-- The tree with a file as it is now. -/
def load (t : FileTree) (path : Path) : IO FileTree := do
  match ← (IO.FS.readBinFile path.text).toBaseIO with
  | .ok bytes => return t.put path.names (itemOfBytes bytes)
  | .error _ => return t.remove path.names

/-- Writes what became of the item of a path, or removes it. -/
def saveItem (t : FileTree) (path : Path) : IO Unit := do
  let write (bytes : ByteArray) : IO Unit := do
    IO.FS.createDirAll (FileTree.pathOf path.names.dropLast).text
    IO.FS.writeBinFile path.text bytes
  match t.item? path.names with
  | some (.file bytes) => write bytes
  | some (.index store) => write store.text.toUTF8
  | some .directory => IO.FS.createDirAll path.text
  | some (.barred _) | some (.link _) => pure ()
  | none =>
    match ← (IO.FS.removeFile path.text).toBaseIO with
    | .ok () | .error _ => pure ()

/-- Writes the changes from one tree to another. -/
def save (earlier later : FileTree) : IO Unit :=
  (earlier.changes later).forM (saveItem later)

/-- Follows the paths that change until no more come or the watch ends. -/
partial def follow (x : Surroundings) (stream : IO.FS.Stream) (w : Workspace) (p : Project)
    (watcher : Watcher) : IO Unit := do
  match ← readLine stream with
  | none => pure ()
  | some line =>
    let path := x.here.join ⟨line⟩
    let tree ← load w.tree path
    let now ← IO.monoMsNow
    let watcher := (watcher.observe [path] now (tree.holds p.root)).tick
      (now + p.settings.sync.debounceMilliseconds)
    let (watcher, w, p, _) := watcher.serve { w with tree } p x.parse { now := x.now }
    save tree w.tree
    if watcher.stopped then pure () else follow x stream w p watcher

/-- Runs a command and gives the exit code. -/
def run (i : Invocation) : IO UInt32 := do
  let started ← IO.monoMsNow
  let stdin ← IO.getStdin
  let here : Path := ⟨(← IO.getEnv "PWD").getD "/"⟩
  let keys ← providers.mapM fun provider => do
    return (provider.keyVariable, ← IO.getEnv provider.keyVariable)
  let now := ((← IO.getEnv "SOURCE_DATE_EPOCH").bind readNumber?).getD 0
  let x : Surroundings :=
    { here, now
      environment := fun name => ((keys.find? (·.1 == name)).map (·.2)).join
      exchange := fun _ => .refused
      parse := fun _ _ => none }
  let paths := (← readLines stdin).map fun line => here.join ⟨line⟩
  let tree ← paths.foldlM load (FileTree.empty.put here.names .directory)
  let (w, answer) := i.run x { tree }
  save tree w.tree
  match answer with
  | .error refusal =>
    IO.eprintln refusal.message
    return 1
  | .ok answer =>
    IO.print (answer.text i.format ((← IO.monoMsNow) - started))
    match answer with
    | .counted s =>
      match s.warning? with
      | some warning => IO.eprintln warning
      | none => pure ()
    | .watching _ p watcher => follow x stdin w p watcher
    | _ => pure ()
    return 0

end Program

end SourceIndex

/-- The program. -/
def main (args : List String) : IO UInt32 := do
  match SourceIndex.Invocation.read args with
  | .ok i => SourceIndex.Program.run i
  | .error .help =>
    IO.print SourceIndex.Invocation.usage
    return 0
  | .error .version =>
    IO.print SourceIndex.Invocation.versionText
    return 0
  | .error .misuse =>
    IO.eprint SourceIndex.Invocation.usage
    return 2
