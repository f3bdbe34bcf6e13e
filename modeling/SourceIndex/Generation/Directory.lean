import SourceIndex.Files.Tree

set_option autoImplicit false

/-! # Index directories

The index of a project lies in a directory of its own: one file for each generation, named by
the number of the generation, and a file `CURRENT` that names the generation in use. `CURRENT`
is replaced by moving a finished file over it.

* `IndexDirectory.fileFor`, `IndexDirectory.idOfName?`: numbers and file names.
* `IndexDirectory.readCurrent`, `IndexDirectory.writeCurrent`: the generation in use.
* `IndexDirectory.nextId`: a number larger than any in use.
* `IndexDirectory.sweep`: generations that are not in use go away.
* `IndexDirectory.create`, `IndexDirectory.leftover`: the file of a new generation, and what is left
  when it cannot be set up.
-/

namespace SourceIndex

/-! ## Numbers -/

/-- The number a text spells with digits, which fits into 64 bits; a plus sign may stand before
it. -/
def readNumber? (text : String) : Option Nat :=
  let digits :=
    match text.toList with
    | '+' :: rest => rest
    | cs => cs
  if !digits.isEmpty && digits.all Char.isDigit then
    let n := digits.foldl (fun n c => 10 * n + (c.toNat - '0'.toNat)) 0
    if n < UInt64.size then some n else none
  else none

/-- A number with zeros before it up to six digits. -/
def sixDigits (n : Nat) : String :=
  let digits := toString n
  "".pushn '0' (6 - digits.length) ++ digits

/-! ## Opening stores -/

/-- The store in the file at a path. When it cannot be read, `purpose` says what for and `table`
what is looked for first. -/
def openStore (t : FileTree) (path : Path) (purpose table : String) : Except Fault Store :=
  let unopenable : Fault := .store
    ("failed to open " ++ path.text ++ ": unable to open database file: " ++ path.text)
  match t.locate path with
  | .error _ => .error unopenable
  | .ok names =>
    match t.item? names with
    | some (.index store) => .ok store
    | some (.file bytes) =>
      if bytes.isEmpty then .error (.store (purpose ++ ": no such table: " ++ table))
      else .error (.store (purpose ++ ": file is not a database"))
    | _ => .error unopenable

/-- The journal beside the file of a store. -/
def journalOf (path : Path) : Path := ⟨path.text ++ "-journal"⟩

/-- The tree without the store at a path and the journal beside it. -/
def removeStore (t : FileTree) (path : Path) : FileTree :=
  (t.delete (journalOf path)).delete path

/-- The directory of an index. -/
structure IndexDirectory where
  path : Path
  deriving DecidableEq, Repr, Inhabited

namespace IndexDirectory

/-! ## Names -/

/-- The name of the file that names the generation in use. -/
def currentName : String := "CURRENT"

/-- The name of the file that a build locks. -/
def lockName : String := "build.lock"

/-- The path of a name in the directory. -/
def entry (d : IndexDirectory) (name : String) : Path := d.path.join ⟨name⟩

/-- The file name of a generation. -/
def nameOf (id : Nat) : String := "gen-" ++ sixDigits id ++ ".db"

/-- The file of a generation. -/
def fileFor (d : IndexDirectory) (id : Nat) : Path := d.entry (nameOf id)

/-- The generation whose file has a name. Any spelling of the number is accepted. -/
def idOfName? (name : String) : Option Nat := do
  let rest ← Text.dropLead? "gen-".toList name.toList
  let digits ← Text.dropLead? ".db".toList.reverse rest.reverse
  readNumber? (String.ofList digits.reverse)

/-! ## What is there -/

/-- The names in the directory in order; none if it is missing. -/
def names (d : IndexDirectory) (t : FileTree) : Except Obstacle (List String) :=
  match t.locate d.path with
  | .error .missing => .ok []
  | .error o => .error o
  | .ok here => if t.hasDirectory here then .ok ((t.namesIn here).mergeSort Text.le) else .error .notDirectory

/-- The generations with a file, in order. -/
def ids (d : IndexDirectory) (t : FileTree) : Except Fault (List Nat) :=
  match d.names t with
  | .error o => .error o.fault
  | .ok names => .ok ((names.filterMap idOfName?).mergeSort fun a b => a ≤ b)

/-- The generation in use, if one is. -/
def readCurrent (d : IndexDirectory) (t : FileTree) : Except Fault (Option Nat) :=
  match t.readText (d.entry currentName) with
  | .error .missing => .ok none
  | .error o => .error o.fault
  | .ok text =>
    match readNumber? (Text.trim text) with
    | some id => .ok (some id)
    | none => .error (.store ("corrupt CURRENT file: '" ++ Text.trim text ++ "'"))

/-- A number larger than those of all generations with a file and of the one in use. -/
def nextId (d : IndexDirectory) (t : FileTree) : Except Fault Nat :=
  match d.ids t with
  | .error f => .error f
  | .ok ids =>
    match d.readCurrent t with
    | .error f => .error f
    | .ok current =>
      let id := max (ids.getLastD 0) (current.getD 0) + 1
      if id < UInt64.size then .ok id else .error (.overflow "generation id")

/-! ## Changes -/

/-- The tree in which a generation is in use, or the obstacle and what is left then. -/
def writeCurrent (d : IndexDirectory) (t : FileTree) (id : Nat) :
    FileTree × Except Obstacle Unit :=
  match t.makeDirectory d.path with
  | .error o => (t, .error o)
  | .ok t =>
    let draft := d.entry (currentName ++ ".tmp")
    match t.write draft (.file (toString id ++ "\n").toUTF8) with
    | .error o => (t, .error o)
    | .ok written =>
      match written.move draft (d.entry currentName) with
      | .ok moved => (moved, .ok ())
      | .error o => (written.delete draft, .error o)

/-- The tree without the files of generations other than the one to keep. Files are found by any
spelling of their number and removed under the proper one. -/
def sweep (d : IndexDirectory) (t : FileTree) (keep : Option Nat) : FileTree :=
  match d.ids t with
  | .error _ => t
  | .ok ids =>
    (ids.filter fun id => some id ≠ keep).foldl (fun t id => removeStore t (d.fileFor id)) t

/-- The tree with an empty file for a generation that has none. -/
def make (d : IndexDirectory) (t : FileTree) (id : Nat) : Except Fault FileTree :=
  let path := d.fileFor id
  if t.holds path then .error (.store ("generation file already exists: " ++ path.text))
  else
    match t.makeDirectory d.path with
    | .error o => .error (.store ("failed to create index directory: " ++ o.message))
    | .ok t =>
      match t.write path (.file .empty) with
      | .error o => .error (.store ("failed to open database: " ++ o.message))
      | .ok t => .ok t

/-- The tree with a new store in the file of a generation. A journal that is found beside the file
is stale and goes away; the store needs its place. -/
def create (d : IndexDirectory) (t : FileTree) (id : Nat) (store : Store) :
    Except Fault FileTree :=
  let path := d.fileFor id
  match d.make t id with
  | .error f => .error f
  | .ok made =>
    let cleared := made.delete (journalOf path)
    if cleared.holds (journalOf path) then
      .error (.store "failed to create schema: unable to open database file")
    else
      match cleared.write path (.index store) with
      | .error o => .error (.store ("failed to open database: " ++ o.message))
      | .ok t => .ok t

/-- The tree that is left when no store can be created: the file stays if it was made. -/
def leftover (d : IndexDirectory) (t : FileTree) (id : Nat) : FileTree :=
  match d.make t id with
  | .ok made => made
  | .error _ => t

end IndexDirectory

end SourceIndex
