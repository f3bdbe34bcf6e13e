import SourceIndex.Text.Basic

set_option autoImplicit false

/-! # The summary of a documentation text

The first line that is not empty once the marks of comments and string literals are taken off.
-/

namespace SourceIndex

namespace Chunk

/-- A documentation line without the marks of comments and strings around it. -/
def stripMarks (line : String) : String :=
  let line := Text.trim line
  let line := Text.trimLeftWhere (fun c => c == 'r' || c == 'u' || c == 'b' || c == 'f') line
  let line := Text.trimLeads "\"\"\"" line
  let line := Text.trimLeads "'''" line
  let line := Text.trimLeads "/**" line
  let line := Text.trimLeads "///" line
  let line := Text.trimLeads "//" line
  let line := Text.trimLeads "/*" line
  let line := Text.trimLeads "*" line
  let line := Text.trimTails "*/" line
  let line := Text.trimTails "\"\"\"" line
  let line := Text.trimTails "'''" line
  Text.trim (String.ofList (Text.trimChars (fun c => c == '"' || c == '\'') line.toList))

/-- The first line of a documentation text that says something. -/
def summary? (doc : String) : Option String :=
  ((Text.lines doc).map stripMarks).find? (· != "")

end Chunk

end SourceIndex
