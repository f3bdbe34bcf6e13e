import SourceIndex.Digest
import SourceIndex.Language.Basic

set_option autoImplicit false

/-! # Source files

A file that was read and whose language is known.
-/

namespace SourceIndex

/-- A source file with its text. -/
structure SourceFile where
  path : Path
  language : Language
  /-- The size in bytes. -/
  size : Nat
  /-- The digest of the text. -/
  contentHash : String
  content : String
  deriving Repr, Inhabited

/-- The file with the given text. -/
def SourceFile.ofText (path : Path) (language : Language) (content : String) : SourceFile :=
  { path, language, content, size := content.utf8ByteSize, contentHash := Digest.ofText content }

end SourceIndex
