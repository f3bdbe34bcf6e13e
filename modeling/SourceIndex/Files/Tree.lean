import SourceIndex.Store.Basic

set_option autoImplicit false

/-! # File trees

A file tree holds files, directories and symbolic links under names counted from the top. Every
item but the top has a directory right above it. The file of an index store is kept as the
store itself, and of a file that may not be read only the size is known.

A path leads to an item piece by piece: a piece after an item needs that item to be a directory,
and links are followed, forty of them at most. A path that leads nowhere meets an obstacle.

* `FileTree.locate`: where a path leads.
* `FileTree.put`, `FileTree.remove`: changes by names.
* `FileTree.readBytes`, `FileTree.readText`, `FileTree.makeDirectory`, `FileTree.write`,
  `FileTree.move`, `FileTree.delete`: what can be done with a path.
-/

namespace SourceIndex

/-- An item of a file tree. -/
inductive FileItem where
  | file (bytes : ByteArray)
  /-- The file of an index store. -/
  | index (store : Store)
  /-- A file that has a size but may not be read. -/
  | barred (size : Nat)
  | directory
  /-- A symbolic link with the path it points to. -/
  | link (target : String)
  deriving Inhabited

namespace FileItem

/-- Whether an item is a file of any kind. -/
def isFile : FileItem → Bool
  | .file _ | .index _ | .barred _ => true
  | .directory | .link _ => false

/-- The first bytes of the file of an index store. -/
def indexMark : ByteArray := "index\x00".toUTF8

/-- The bytes of a file; of an index store its mark alone. -/
def bytes? : FileItem → Option ByteArray
  | .file bytes => some bytes
  | .index _ => some indexMark
  | .barred _ | .directory | .link _ => none

end FileItem

/-- Why a path cannot be used. -/
inductive Obstacle where
  /-- Nothing has the name. -/
  | missing
  /-- A name stands below something that is no directory. -/
  | notDirectory
  /-- A directory stands where a file is needed. -/
  | isDirectory
  /-- Too many links. -/
  | linkLoop
  /-- A file may not be read. -/
  | denied
  /-- Bytes that are not text. -/
  | notText
  deriving DecidableEq, Repr, Inhabited

namespace Obstacle

/-- The wording of an obstacle. -/
def message : Obstacle → String
  | .missing => "No such file or directory (os error 2)"
  | .notDirectory => "Not a directory (os error 20)"
  | .isDirectory => "Is a directory (os error 21)"
  | .linkLoop => "Too many levels of symbolic links (os error 40)"
  | .denied => "Permission denied (os error 13)"
  | .notText => "stream did not contain valid UTF-8"

/-- An obstacle as a fault of an operation. -/
def fault (o : Obstacle) : Fault := .io o.message

end Obstacle

/-- Items by the names that lead to them. -/
structure FileTree where
  entries : List (List String × FileItem)
  deriving Inhabited

namespace FileTree

/-- The tree without items. -/
def empty : FileTree := ⟨[]⟩

/-- The item with the given names, links not followed. The top is a directory. -/
def item? (t : FileTree) (names : List String) : Option FileItem :=
  match names with
  | [] => some .directory
  | _ => (t.entries.find? (·.1 == names)).map (·.2)

/-- Whether the item with the given names is a directory. -/
def hasDirectory (t : FileTree) (names : List String) : Bool :=
  match t.item? names with
  | some .directory => true
  | _ => false

/-! ## Following paths -/

/-- How many links are followed on one path. -/
def maxLinks : Nat := 40

/-- The names of the item that the pieces lead to from the item `here`. At a link `follow` goes on
from the item that its target starts at, with the pieces of the target before those left. -/
def walk (t : FileTree) (follow : List String → List String → Except Obstacle (List String))
    (here : List String) : List String → Except Obstacle (List String)
  | [] => .ok here
  | p :: ps =>
    if !t.hasDirectory here then .error .notDirectory
    else if p = "" ∨ p = "." then walk t follow here ps
    else if p = ".." then walk t follow here.dropLast ps
    else
      match t.item? (here ++ [p]) with
      | none => .error .missing
      | some (.link target) =>
        follow (if Text.startsWith target "/" then [] else here)
          (Text.split (· == '/') target ++ ps)
      | some _ => walk t follow (here ++ [p]) ps

/-- The names of the item that the pieces lead to from the item `here`, with at most `links` links
on the way. -/
def locateFrom (t : FileTree) :
    (links : Nat) → (here pieces : List String) → Except Obstacle (List String)
  | 0 => t.walk fun _ _ => .error .linkLoop
  | links + 1 => t.walk (t.locateFrom links)

/-- The pieces of a path. -/
def pieces (path : Path) : List String := Text.split (· == '/') path.text

/-- The names of the item that a path leads to. -/
def locate (t : FileTree) (path : Path) : Except Obstacle (List String) :=
  t.locateFrom maxLinks [] (pieces path)

/-- Whether a path leads anywhere. -/
def holds (t : FileTree) (path : Path) : Bool := (t.locate path).isOk

/-- Whether a path leads to a directory. -/
def isDirectory (t : FileTree) (path : Path) : Bool :=
  match t.locate path with
  | .ok names => t.hasDirectory names
  | .error _ => false

/-- The bytes of the file that a path leads to. -/
def readBytes (t : FileTree) (path : Path) : Except Obstacle ByteArray :=
  match t.locate path with
  | .error o => .error o
  | .ok names =>
    match t.item? names with
    | some (.barred _) => .error .denied
    | item =>
      match item.bind FileItem.bytes? with
      | some bytes => .ok bytes
      | none => .error .isDirectory

/-- The text of the file that a path leads to. -/
def readText (t : FileTree) (path : Path) : Except Obstacle String :=
  match t.readBytes path with
  | .error o => .error o
  | .ok bytes =>
    match String.fromUTF8? bytes with
    | some text => .ok text
    | none => .error .notText

/-! ## Changes by names -/

/-- Whether `names` begins with `lead`. -/
def isBelow (lead names : List String) : Bool := lead.isPrefixOf names

/-- The tree without an item and all that lies under it. -/
def remove (t : FileTree) (names : List String) : FileTree :=
  ⟨t.entries.filter fun e => !isBelow names e.1⟩

/-- The tree with an item set, in place of what was there. -/
def set (t : FileTree) (names : List String) (item : FileItem) : FileTree :=
  ⟨(t.remove names).entries ++ [(names, item)]⟩

/-- The tree with the directories that lead to `names`, itself among them. -/
def makeDirectories (t : FileTree) (names : List String) : FileTree :=
  (List.range names.length).foldl
    (fun t i =>
      let lead := names.take (i + 1)
      if t.hasDirectory lead then t else t.set lead .directory)
    t

/-- The tree with an item put in place and all directories that lead to it. -/
def put (t : FileTree) (names : List String) (item : FileItem) : FileTree :=
  match item with
  | .directory => t.makeDirectories names
  | _ => (t.makeDirectories names.dropLast).set names item

/-- The names of the items directly in a directory. -/
def namesIn (t : FileTree) (directory : List String) : List String :=
  t.entries.filterMap fun e =>
    if e.1.dropLast = directory then e.1.getLast? else none

/-! ## Changes by paths -/

/-- The names that a path gives to an item in an existing directory, links not followed. -/
def spot (t : FileTree) (path : Path) : Except Obstacle (List String) :=
  let ps := pieces path
  match t.locateFrom maxLinks [] ps.dropLast with
  | .error o => .error o
  | .ok above =>
    if t.hasDirectory above then .ok (above ++ (ps.getLast?).toList) else .error .notDirectory

/-- The tree with the directories that the pieces of a path name one after the other, from the
directory that the pieces `above` lead to. -/
def makeBelow (t : FileTree) (above : List String) : List String → Except Obstacle FileTree
  | [] => .ok t
  | p :: ps =>
    match t.locateFrom maxLinks [] (above ++ [p]) with
    | .ok names =>
      if t.hasDirectory names then makeBelow t (above ++ [p]) ps else .error .notDirectory
    | .error .missing =>
      match t.locateFrom maxLinks [] above with
      | .ok names =>
        match t.item? (names ++ [p]) with
        | none => makeBelow (t.set (names ++ [p]) .directory) (above ++ [p]) ps
        | some _ => .error .missing
      | .error o => .error o
    | .error o => .error o

/-- The tree with a directory at a path, and those that lead to it. -/
def makeDirectory (t : FileTree) (path : Path) : Except Obstacle FileTree :=
  t.makeBelow [] (pieces path)

/-- The tree with a file at a path; a file that is there is overwritten. -/
def write (t : FileTree) (path : Path) (item : FileItem) : Except Obstacle FileTree :=
  match t.locate path with
  | .ok names => if t.hasDirectory names then .error .isDirectory else .ok (t.set names item)
  | .error .missing =>
    match t.spot path with
    | .ok names => .ok (t.set names item)
    | .error o => .error o
  | .error o => .error o

/-- The tree with the file of one path moved to another one, whose file it replaces. -/
def move (t : FileTree) (source target : Path) : Except Obstacle FileTree :=
  match t.spot source, t.spot target with
  | .ok old, .ok new =>
    match t.item? old with
    | none => .error .missing
    | some item =>
      if t.hasDirectory new then .error .isDirectory else .ok ((t.remove old).set new item)
  | .error o, _ => .error o
  | _, .error o => .error o

/-- The tree without the file or link at a path, if one is there. -/
def delete (t : FileTree) (path : Path) : FileTree :=
  match t.spot path with
  | .ok names => if t.hasDirectory names then t else t.remove names
  | .error _ => t

end FileTree

end SourceIndex
