import SourceIndex.Language.Basic
import SourceIndex.Syntax.Python
import SourceIndex.Syntax.Go
import SourceIndex.Syntax.Java
import SourceIndex.Syntax.CFamily
import SourceIndex.Syntax.Rust
import SourceIndex.Syntax.JavaScript

set_option autoImplicit false

/-! # The rules of each language -/

namespace SourceIndex

/-- The rules for trees of a language, if it has a grammar. -/
def Rules.ofLanguage? : Language → Option Rules
  | .python => some Python.rules
  | .rust => some Rust.rules
  | .javaScript | .typeScript | .tsx => some JavaScript.rules
  | .go => some Go.rules
  | .java => some Java.rules
  | .c | .cpp => some CFamily.rules
  | _ => none

/-- A language has rules exactly when its files are parsed. -/
theorem Rules.isSome_ofLanguage? (l : Language) :
    (Rules.ofLanguage? l).isSome = l.hasGrammar := by
  cases l <;> rfl

end SourceIndex
