import SourceIndex.Syntax.Definition

set_option autoImplicit false

/-! # Rules for Python

Functions and classes, alone or under decorators. The documentation is a string that stands
first in the body.
-/

namespace SourceIndex

namespace Python

/-- The function or class at a node, looked for under its decorators. -/
def definition? (source : String) (n : Node) : Option (Definition n) :=
  if n.kind = "function_definition" then
    (n.fieldText? "name" source).map fun name => .ofNode .function name n
  else if n.kind = "class_definition" then
    (n.fieldText? "name" source).map fun name => .ofNode .container name n
  else if n.kind = "decorated_definition" then
    match h : n.child? "definition" with
    | none => none
    | some m =>
      have inside : sizeOf m < sizeOf n := Node.sizeOf_lt_of_child? h
      (definition? source m).map fun d => d.widen n inside
  else none
termination_by sizeOf n

/-- The parameter at a node of a parameter list; separators are none. -/
def parameter? (source : String) (n : Node) : Option Parameter :=
  match n.kind with
  | "identifier" | "list_splat_pattern" | "dictionary_splat_pattern" =>
    some (.named (n.trimmedText source))
  | "typed_parameter" =>
    let name := (n.namedChildren.head?.getD n).trimmedText source
    some ⟨name, n.fieldText? "type" source, none⟩
  | "default_parameter" | "typed_default_parameter" =>
    (n.fieldText? "name" source).map fun name =>
      ⟨name, n.fieldText? "type" source, n.fieldText? "value" source⟩
  | _ => none

/-- The parameters of a function. -/
def parameters (source : String) (s : Site) : List Parameter :=
  match s.definition.core.child? "parameters" with
  | none => []
  | some ps => ps.namedChildren.filterMap (parameter? source)

/-- The string that stands first in a body, comments not counted. -/
def docstring? (source : String) (s : Site) : Option String := do
  let body ← s.definition.body
  let first ← body.namedChildren.find? (·.kind != "comment")
  if first.kind = "expression_statement" then
    let literal ← first.namedChildren.head?
    if literal.kind = "string" then some (literal.text source) else none
  else none

/-- The decorators of a decorated definition. -/
def decorators (source : String) (s : Site) : List String :=
  if s.outer.kind = "decorated_definition" then
    (s.outer.namedChildren.filter (·.kind == "decorator")).map (·.trimmedText source)
  else []

/-- The kinds of import statements. -/
def importKinds : List String :=
  ["import_statement", "import_from_statement", "future_import_statement"]

/-- What is asked of a Python tree. -/
def rules : Rules where
  definition? := definition?
  isImport n := importKinds.contains n.kind
  callee? := calleeOf? "call"
  parameters := parameters
  returnType? source s := annotationIn? source s.definition.core "return_type"
  docstring? := docstring?
  decorators := decorators
  isTrivia n := n.isComment

end Python

end SourceIndex
