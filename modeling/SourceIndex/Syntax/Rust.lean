import SourceIndex.Syntax.Definition

set_option autoImplicit false

/-! # Rules for Rust

Functions, type definitions, traits, implementation blocks and modules with a body.
Attributes and comments belong to the item after them.
-/

namespace SourceIndex

namespace Rust

/-- Whether a node is an attribute. -/
def isAttribute (n : Node) : Bool := n.kind == "attribute_item"

/-- The role of an item of a given kind that has a name of its own. -/
def roleOf? (n : Node) : Option Role :=
  match n.kind with
  | "function_item" | "function_signature_item" => some .function
  | "struct_item" | "enum_item" | "union_item" | "trait_item" => some .container
  | "mod_item" => if (n.child? "body").isSome then some .container else none
  | _ => none

/-- The item at a node; an implementation block has the name of its type. -/
def definition? (source : String) (n : Node) : Option (Definition n) :=
  if n.kind = "impl_item" then
    (lastNameIn? source n "type").map fun name => .ofNode .container name n
  else do
    let role ← roleOf? n
    let name ← n.fieldText? "name" source
    some (.ofNode role name n)

/-- The parameter at a node of a parameter list. -/
def parameter? (source : String) (n : Node) : Option Parameter :=
  match n.kind with
  | "self_parameter" => some (.named (n.trimmedText source))
  | "parameter" =>
    (n.fieldText? "pattern" source).map fun name => ⟨name, n.fieldText? "type" source, none⟩
  | "variadic_parameter" => some (.named "...")
  | _ => none

/-- The parameters of a function. -/
def parameters (source : String) (s : Site) : List Parameter :=
  match s.definition.core.child? "parameters" with
  | none => []
  | some ps => ps.namedChildren.filterMap (parameter? source)

/-- What is asked of a Rust tree. -/
def rules : Rules where
  definition? := definition?
  isImport n := n.kind == "use_declaration" || n.kind == "extern_crate_declaration"
  callee? := calleeOf? "call_expression"
  parameters := parameters
  returnType? source s := annotationIn? source s.definition.core "return_type"
  docstring? source s := leadingComments? source isDocComment isAttribute s
  decorators source s := leadingNodes source isAttribute s
  isTrivia n := n.isComment || isAttribute n

end Rust

end SourceIndex
