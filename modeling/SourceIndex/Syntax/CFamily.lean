import SourceIndex.Syntax.Definition

set_option autoImplicit false

/-! # Rules for C and C++

Function definitions, record types with a body, namespaces and templates. Names hide under
declarators: pointers, references and arrays are looked through.
-/

namespace SourceIndex

namespace CFamily

/-- The kinds of declarators a function may hide under. -/
def wrapperKinds : List String :=
  ["pointer_declarator", "reference_declarator", "parenthesized_declarator"]

/-- The function declarator at a declarator or under it. -/
def functionDeclaratorAt? (n : Node) : Option Node :=
  if n.kind = "function_declarator" then some n
  else if wrapperKinds.contains n.kind then
    match h : n.childOrFirst? "declarator" with
    | none => none
    | some m =>
      have : sizeOf m < sizeOf n := Node.sizeOf_lt_of_childOrFirst? h
      functionDeclaratorAt? m
  else none
termination_by sizeOf n

/-- The function declarator of a function definition. -/
def functionDeclarator? (n : Node) : Option Node :=
  (n.child? "declarator").bind functionDeclaratorAt?

/-- The name in a declarator. -/
def declaratorName? (source : String) (n : Node) : Option String :=
  match lastName? source n with
  | some name => some name
  | none =>
    match h : n.childOrFirst? "declarator" with
    | none => none
    | some m =>
      have : sizeOf m < sizeOf n := Node.sizeOf_lt_of_childOrFirst? h
      declaratorName? source m
termination_by sizeOf n

/-- The kinds of record types. -/
def recordKinds : List String :=
  ["class_specifier", "struct_specifier", "union_specifier", "enum_specifier"]

/-- The function, record type or namespace at a node; a template is what it makes generic. -/
def definition? (source : String) (n : Node) : Option (Definition n) :=
  if n.kind = "function_definition" then do
    let declarator ← functionDeclarator? n
    let inner ← declarator.child? "declarator"
    let name ← declaratorName? source inner
    some (.ofNode .function name n)
  else if recordKinds.contains n.kind then do
    let _ ← n.child? "body"
    let name ← lastNameIn? source n "name"
    some (.ofNode .container name n)
  else if n.kind = "namespace_definition" then
    (n.fieldText? "name" source).map fun name => .ofNode .container name n
  else if n.kind = "template_declaration" then
    n.namedChildren.attach.findSome? fun ⟨m, h⟩ =>
      have inside : sizeOf m < sizeOf n := Node.sizeOf_lt_of_mem_named h
      (definition? source m).map fun d =>
        { d.widen n inside with signatureStart := n.start.byte }
  else none
termination_by sizeOf n

/-- A text without the first occurrence of a part. -/
def eraseFirst (text part : String) : String :=
  match Text.cutAt? part.toList text.toList with
  | some (before, after) => String.ofList (before ++ after)
  | none => text

/-- The type of a parameter: the text before its declarator, and the declarator without the
name and without a default. -/
def parameterType? (source : String) (n : Node) (declarator : Option Node) (name : Option String) :
    Option String :=
  match declarator, name with
  | some d, some name =>
    let base := Text.trim ((Text.slice? source n.start.byte d.start.byte).getD "")
    let marks := (eraseFirst (d.text source) name).toList.takeWhile (· != '=')
    let joined := Text.trim (base ++ " " ++ Text.trim (String.ofList marks))
    if joined = "" then none else some joined
  | _, _ =>
    let t := n.trimmedText source
    if t = "" then none else some t

/-- The parameter at a node of a parameter list; a lone `void` is none. -/
def parameter? (source : String) (n : Node) : Option Parameter :=
  match n.kind with
  | "parameter_declaration" | "optional_parameter_declaration" =>
    let declarator := n.child? "declarator"
    let name := declarator.bind (declaratorName? source)
    let type := parameterType? source n declarator name
    if type = some "void" ∧ name = none then none
    else some ⟨name.getD "_", type, n.fieldText? "default_value" source⟩
  | "variadic_parameter" => some (.named "...")
  | _ => none

/-- The parameters of a function. -/
def parameters (source : String) (s : Site) : List Parameter :=
  match (functionDeclarator? s.definition.core).bind (·.child? "parameters") with
  | none => []
  | some ps => ps.namedChildren.filterMap (parameter? source)

/-- What is asked of a C or C++ tree. -/
def rules : Rules where
  definition? := definition?
  isImport n := n.kind == "preproc_include"
  callee? := calleeOf? "call_expression"
  parameters := parameters
  returnType? source s :=
    if s.definition.core.kind = "function_definition" then
      s.definition.core.fieldText? "type" source
    else none
  docstring? source s := leadingComments? source isDocComment (fun _ => false) s
  decorators _ _ := []
  isTrivia n := n.isComment

end CFamily

end SourceIndex
