import SourceIndex.Files.Tree

set_option autoImplicit false

/-! # Changes between file trees

The paths on which two trees differ. The files of index stores always count as changed, since
their contents are not compared.

* `FileTree.changes`: the paths that were added, removed or changed.
-/

namespace SourceIndex

/-- Whether two items are seen to be the same. -/
def FileItem.same : FileItem → FileItem → Bool
  | .file a, .file b => a == b
  | .barred a, .barred b => a == b
  | .directory, .directory => true
  | .link a, .link b => a == b
  | _, _ => false

namespace FileTree

/-- Whether two trees have the same item under the given names. -/
def agreeOn (a b : FileTree) (names : List String) : Bool :=
  match a.item? names, b.item? names with
  | some x, some y => x.same y
  | none, none => true
  | _, _ => false

/-- The absolute path of an item. -/
def pathOf (names : List String) : Path := ⟨"/" ++ "/".intercalate names⟩

/-- The paths that were added, removed or changed from one tree to another. -/
def changes (a b : FileTree) : List Path :=
  let names := a.entries.map (·.1) ++ (b.entries.map (·.1)).filter fun n => (a.item? n).isNone
  (names.filter fun n => !a.agreeOn b n).map pathOf

end FileTree

end SourceIndex
