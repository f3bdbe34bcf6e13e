import SourceIndex.Syntax.Definition

set_option autoImplicit false

/-! # Rules for Java

Type declarations, methods and constructors. A signature begins after the annotations among
the modifiers.
-/

namespace SourceIndex

namespace Java

/-- Whether a node is an annotation. -/
def isAnnotationNode (n : Node) : Bool := n.kind == "annotation" || n.kind == "marker_annotation"

/-- The modifiers of a declaration. -/
def modifiers? (n : Node) : Option Node := n.namedChildren.find? (·.kind == "modifiers")

/-- Where the signature of a declaration begins. -/
def signatureStart (n : Node) : Nat :=
  match modifiers? n with
  | none => n.start.byte
  | some mods =>
    match mods.children.find? fun c => !isAnnotationNode c && !c.isComment with
    | some c => c.start.byte
    | none => mods.stop.byte

/-- The role of a declaration of a given kind. -/
def roleOfKind? (kind : String) : Option Role :=
  match kind with
  | "class_declaration" | "interface_declaration" | "enum_declaration" | "record_declaration"
  | "annotation_type_declaration" => some .container
  | "method_declaration" | "constructor_declaration" => some .method
  | _ => none

/-- The type, method or constructor declared at a node. -/
def definition? (source : String) (n : Node) : Option (Definition n) := do
  let role ← roleOfKind? n.kind
  let name ← n.fieldText? "name" source
  some { Definition.ofNode role name n with signatureStart := signatureStart n }

/-- The parameter at a node of a parameter list. The type of a variable number of arguments is
written with dots after it. -/
def parameter? (source : String) (n : Node) : Option Parameter :=
  match n.kind with
  | "formal_parameter" =>
    (n.fieldText? "name" source).map fun name => ⟨name, n.fieldText? "type" source, none⟩
  | "spread_parameter" => do
    let declarator ← n.namedChildren.find? (·.kind == "variable_declarator")
    let type := n.namedChildren.find? fun c => c.kind != "modifiers" && c.kind != "variable_declarator"
    let name ← declarator.fieldText? "name" source
    some ⟨name, type.map fun t => t.trimmedText source ++ "...", none⟩
  | _ => none

/-- The parameters of a method. -/
def parameters (source : String) (s : Site) : List Parameter :=
  match s.definition.core.child? "parameters" with
  | none => []
  | some ps => ps.namedChildren.filterMap (parameter? source)

/-- The annotations among the modifiers. -/
def decorators (source : String) (s : Site) : List String :=
  match modifiers? s.definition.core with
  | none => []
  | some mods => (mods.namedChildren.filter isAnnotationNode).map (·.trimmedText source)

/-- What is asked of a Java tree. -/
def rules : Rules where
  definition? := definition?
  isImport n := n.kind == "import_declaration"
  callee? source n := if n.kind = "method_invocation" then n.fieldText? "name" source else none
  parameters := parameters
  returnType? source s :=
    if s.definition.core.kind = "method_declaration" then
      s.definition.core.fieldText? "type" source
    else none
  docstring? source s :=
    leadingComments? source (fun t => Text.startsWith t "/**") (fun _ => false) s
  decorators := decorators
  isTrivia n := n.isComment

end Java

end SourceIndex
