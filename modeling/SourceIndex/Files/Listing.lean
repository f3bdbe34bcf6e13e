import SourceIndex.Files.IgnoreRule
import SourceIndex.Files.Pattern
import SourceIndex.Files.Tree
import SourceIndex.Language.Guess
import SourceIndex.Settings.Basic
import SourceIndex.SourceFile

set_option autoImplicit false

/-! # Listing and reading source files

The files of a project are those under its root that are neither hidden nor ruled out by an
ignore file nor have a name on the list of ignored patterns. Links are not listed.

Ignore files work downwards from their directory. `.ignore` files always count; `.gitignore`
and `.git/info/exclude` count where a directory above holds `.git`, and not those above it. Of
several files of one kind the innermost that says something wins, and `.ignore` wins over
`.gitignore`, which wins over `exclude`.

A file is read when it is not too large, is text, and has a language that is kept.

* `Listing.files`: the files of a project in the order of their paths.
* `Listing.readSource`: one of them, read.
-/

namespace SourceIndex

/-- What is listed and read. -/
structure WalkOptions where
  maxFileSize : Nat
  ignorePatterns : List NamePattern
  /-- The ids of the languages that are kept, all of them if absent. -/
  languages : Option (List String)
  /-- Whether plain text is kept. -/
  includeText : Bool
  deriving Inhabited

namespace WalkOptions

/-- The options that settings ask for; patterns that are not valid are left out. -/
def ofSettings (s : Settings.Index) : WalkOptions :=
  { maxFileSize := s.maxFileSize
    ignorePatterns := s.ignorePatterns.filterMap NamePattern.parse?
    languages := none
    includeText := s.includeText }

/-- The options with a choice of languages. -/
def withLanguages (o : WalkOptions) (languages : Option (List String)) : WalkOptions :=
  { o with languages := languages.map fun ls => ls.map Text.lowercase }

/-- Whether a name in a path fits an ignored pattern. -/
def isIgnored (o : WalkOptions) (path : Path) : Bool :=
  path.names.any fun name => o.ignorePatterns.any fun p => p.accepts name

/-- Whether files of a language are kept. -/
def keeps (o : WalkOptions) (l : Language) : Bool :=
  (l != .text || o.includeText) &&
    match o.languages with
    | some ids => ids.contains l.id
    | none => true

end WalkOptions

namespace Listing

/-! ## Ignore files -/

/-- The rules of an ignore file, if it is there. -/
def rulesAt (t : FileTree) (names : List String) : List IgnoreRule :=
  match t.item? names with
  | some (.file bytes) => ((String.fromUTF8? bytes).map IgnoreRule.ofText).getD []
  | _ => []

/-- Whether a directory holds `.git`. -/
def hasGit (t : FileTree) (directory : List String) : Bool :=
  (t.item? (directory ++ [".git"])).isSome

/-- The directories above an item from the innermost to the top, each with the names that lead
from it to the item. -/
def above (names : List String) : List (List String × List String) :=
  ((List.range names.length).map fun i => (names.take i, names.drop i)).reverse

/-- The first verdict of an ignore file with the given name in the directories. -/
def firstVerdict (t : FileTree) (file : List String) (isDirectory : Bool)
    (dirs : List (List String × List String)) : Verdict :=
  dirs.foldl (fun v (dir, below) =>
    v.or (IgnoreRule.verdict (rulesAt t (dir ++ file)) below isDirectory)) .silent

/-- The directories up to the first one that holds `.git`, if any does. -/
def gitDirectories (t : FileTree) (dirs : List (List String × List String)) :
    List (List String × List String) :=
  if dirs.any fun d => hasGit t d.1 then
    let inner := dirs.takeWhile fun d => !hasGit t d.1
    dirs.take (inner.length + 1)
  else []

/-- What the ignore files above an item say about it. -/
def verdictOn (t : FileTree) (names : List String) (isDirectory : Bool) : Verdict :=
  let dirs := above names
  let gitDirs := gitDirectories t dirs
  ((firstVerdict t [".ignore"] isDirectory dirs).or
    (firstVerdict t [".gitignore"] isDirectory gitDirs)).or
      (firstVerdict t [".git", "info", "exclude"] isDirectory gitDirs)

/-- Whether an item is passed over: it is ruled out, or hidden and not kept by a rule. -/
def skips (t : FileTree) (names : List String) (isDirectory : Bool) : Bool :=
  match verdictOn t names isDirectory with
  | .ignore => true
  | .keep => false
  | .silent =>
    match names.getLast? with
    | some name => Text.startsWith name "."
    | none => false

/-! ## Listing -/

/-- Whether a walk from the directory `root` reaches the file that lies at `below` in it. -/
def reaches (t : FileTree) (root below : List String) : Bool :=
  (List.range below.length).all fun i =>
    !skips t (root ++ below.take (i + 1)) (i + 1 < below.length)

/-- The names of the files under a directory, as a walk reaches them. -/
def reached (t : FileTree) (root : List String) : List (List String) :=
  t.entries.filterMap fun e =>
    if e.2.isFile && root.isPrefixOf e.1 && root.length < e.1.length then
      let below := e.1.drop root.length
      if reaches t root below then some below else none
    else none

/-- The paths of the files of a project relative to its root, in order. -/
def files (t : FileTree) (root : Path) (o : WalkOptions) : Except Fault (List Path) :=
  match t.locate root with
  | .error _ => .error (.fileNotFound root)
  | .ok names =>
    if t.hasDirectory names then
      let paths := (reached t names).map fun below => (⟨"/".intercalate below⟩ : Path)
      .ok ((paths.filter fun p => !o.isIgnored p).mergeSort Path.le)
    else .error (.fileNotFound root)

/-! ## Reading -/

/-- How many bytes are searched for a zero byte. -/
def binaryCheckBytes : Nat := 8192

/-- Whether the first bytes of a file hold a zero byte. -/
def looksBinary (bytes : ByteArray) : Bool :=
  (List.range (min bytes.size binaryCheckBytes)).any fun i => bytes[i]?.getD 1 == 0

/-- The source file with given bytes, if it is one that is kept. -/
def ofBytes? (relative : Path) (bytes : ByteArray) (o : WalkOptions) : Option SourceFile :=
  if o.maxFileSize < bytes.size || looksBinary bytes then none
  else
    (String.fromUTF8? bytes).bind fun content =>
      let r := Language.resolve relative content
      if o.keeps r.language then some (SourceFile.ofText relative r.language content) else none

/-- The source file at a path relative to the root, if it is one that is kept. -/
def readSource (t : FileTree) (root relative : Path) (o : WalkOptions) :
    Except Obstacle (Option SourceFile) :=
  match t.locate (root.join relative) with
  | .error obstacle => .error obstacle
  | .ok names =>
    match t.item? names with
    | some (.barred size) => if o.maxFileSize < size then .ok none else .error .denied
    | item => .ok ((item.bind FileItem.bytes?).bind fun bytes => ofBytes? relative bytes o)

end Listing

end SourceIndex
