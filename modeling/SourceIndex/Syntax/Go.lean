import SourceIndex.Syntax.Definition

set_option autoImplicit false

/-! # Rules for Go

Functions, methods, which name the type they belong to, and declarations of a single type.
-/

namespace SourceIndex

namespace Go

/-- The type a receiver names: `(s *Server)` names `Server`, `(l List[T])` names `List`. -/
def receiverType? (source : String) (receiver : Node) : Option String := do
  let declaration ← receiver.namedChildren.find? (·.kind == "parameter_declaration")
  let type ← declaration.fieldText? "type" source
  let bare := Text.trimLeftWhere (· == '*') type
  let bare := Text.trim (String.ofList (bare.toList.takeWhile (· != '[')))
  if bare = "" then none else some bare

/-- The type specifications of a declaration. -/
def typeSpecs (n : Node) : List Node := n.namedChildren.filter (·.kind == "type_spec")

/-- The function, method or single type declared at a node. The body of a type is the type
itself. -/
def definition? (source : String) (n : Node) : Option (Definition n) :=
  if n.kind = "function_declaration" then
    (n.fieldText? "name" source).map fun name => .ofNode .function name n
  else if n.kind = "method_declaration" then
    (n.fieldText? "name" source).map fun name =>
      { Definition.ofNode .method name n with
        receiver := (n.child? "receiver").bind (receiverType? source) }
  else if n.kind = "type_declaration" then
    match h : typeSpecs n with
    | [spec] =>
      (spec.fieldText? "name" source).map fun name =>
        { Definition.ofNode .container name n with
          body := spec.child? "type"
          body_inside := fun _ hb =>
            Nat.lt_trans (Node.sizeOf_lt_of_child? hb)
              (Node.sizeOf_lt_of_mem_named
                (List.mem_filter.mp (h ▸ List.mem_singleton_self spec : spec ∈ typeSpecs n)).1) }
    | _ => none
  else none

/-- The parameters of one declaration, which may name several or none. -/
def declaredParameters (source : String) (n : Node) : List Parameter :=
  let variadic : Bool := n.kind == "variadic_parameter_declaration"
  if n.kind != "parameter_declaration" && !variadic then []
  else
    let type := (n.fieldText? "type" source).map fun t => if variadic then "..." ++ t else t
    match (n.childrenWith "name").map (·.text source) with
    | [] => [⟨"_", type, none⟩]
    | names => names.map fun name => ⟨name, type, none⟩

/-- The parameters of a function. -/
def parameters (source : String) (s : Site) : List Parameter :=
  match s.definition.core.child? "parameters" with
  | none => []
  | some ps => ps.namedChildren.flatMap (declaredParameters source)

/-- What is asked of a Go tree. -/
def rules : Rules where
  definition? := definition?
  isImport n := n.kind == "import_declaration"
  callee? := calleeOf? "call_expression"
  parameters := parameters
  returnType? source s := annotationIn? source s.definition.core "result"
  docstring? source s :=
    leadingComments? source (fun t => Text.startsWith t "//") (fun _ => false) s
  decorators _ _ := []
  isTrivia n := n.isComment

end Go

end SourceIndex
