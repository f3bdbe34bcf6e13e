import SourceIndex.Syntax.Definition

set_option autoImplicit false

/-! # Rules for JavaScript and TypeScript

Functions, classes, methods, and variables that hold a function, exported or not. TypeScript
adds kinds of nodes that no JavaScript tree has, so both share these rules.
-/

namespace SourceIndex

namespace JavaScript

/-- The kinds of values that make a variable a function. -/
def functionValueKinds : List String :=
  ["arrow_function", "function_expression", "function", "generator_function"]

/-- The role of a declaration of a given kind. -/
def roleOfKind? (kind : String) : Option Role :=
  match kind with
  | "function_declaration" | "generator_function_declaration" => some .function
  | "class_declaration" | "abstract_class_declaration" | "interface_declaration"
  | "enum_declaration" => some .container
  | "method_definition" | "method_signature" | "abstract_method_signature" => some .method
  | _ => none

/-- The declarators of a variable declaration. -/
def declarators (n : Node) : List Node := n.namedChildren.filter (·.kind == "variable_declarator")

/-- The function held by the only variable of a declaration. -/
def variableFunction? (source : String) (n : Node) : Option (Definition n) :=
  match h : declarators n with
  | [declarator] =>
    match hv : declarator.child? "value" with
    | none => none
    | some value =>
      if functionValueKinds.contains value.kind then
        (lastNameIn? source declarator "name").map fun name =>
          have inside : sizeOf value < sizeOf n :=
            Nat.lt_trans (Node.sizeOf_lt_of_child? hv)
              (Node.sizeOf_lt_of_mem_named
                (List.mem_filter.mp
                  (h ▸ List.mem_singleton_self declarator : declarator ∈ declarators n)).1)
          { (Definition.ofNode .function name value).widen n inside with
            signatureStart := n.start.byte }
      else none
  | _ => none

/-- Where the signature of a declaration begins: after its last decorator. -/
def signatureStart (n : Node) : Nat :=
  match (n.namedChildren.filter (·.kind == "decorator")).getLast? with
  | some d => d.stop.byte
  | none => n.start.byte

/-- The definition at a node, looked for under an export. -/
def definition? (source : String) (n : Node) : Option (Definition n) :=
  if n.kind = "lexical_declaration" ∨ n.kind = "variable_declaration" then
    variableFunction? source n
  else if n.kind = "export_statement" then
    match h : n.child? "declaration" with
    | none => none
    | some m =>
      have inside : sizeOf m < sizeOf n := Node.sizeOf_lt_of_child? h
      (definition? source m).map fun d => d.widen n inside
  else do
    let role ← roleOfKind? n.kind
    let name ← lastNameIn? source n "name"
    some { Definition.ofNode role name n with signatureStart := signatureStart n }
termination_by sizeOf n

/-- The parameter at a node of a parameter list. -/
def parameter? (source : String) (n : Node) : Option Parameter :=
  match n.kind with
  | "identifier" | "rest_pattern" | "object_pattern" | "array_pattern" =>
    some (.named (n.trimmedText source))
  | "assignment_pattern" =>
    (n.fieldText? "left" source).map fun name => ⟨name, none, n.fieldText? "right" source⟩
  | "required_parameter" | "optional_parameter" =>
    (n.fieldText? "pattern" source).map fun name =>
      ⟨if n.kind = "optional_parameter" then name.push '?' else name,
       annotationIn? source n "type", n.fieldText? "value" source⟩
  | _ => none

/-- The parameters of a function; a lone parameter may stand without parentheses. -/
def parameters (source : String) (s : Site) : List Parameter :=
  let core := s.definition.core
  match (core.child? "parameters").or (core.child? "parameter") with
  | none => []
  | some ps =>
    if ps.kind = "identifier" then [.named (ps.text source)]
    else ps.namedChildren.filterMap (parameter? source)

/-- The decorators of a definition, first those of its outermost node, without repetitions. -/
def decorators (source : String) (s : Site) : List String :=
  let found := (s.outer.namedChildren ++ s.definition.core.namedChildren).filter
    (·.kind == "decorator")
  (found.map (·.trimmedText source)).eraseDups

/-- What is asked of a JavaScript or TypeScript tree. -/
def rules : Rules where
  definition? := definition?
  isImport n := n.kind == "import_statement"
  callee? := calleeOf? "call_expression"
  parameters := parameters
  returnType? source s := annotationIn? source s.definition.core "return_type"
  docstring? source s := leadingComments? source isDocComment (fun _ => false) s
  decorators := decorators
  isTrivia n := n.isComment

end JavaScript

end SourceIndex
