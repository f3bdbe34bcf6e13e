import SourceIndex.Syntax.Node

set_option autoImplicit false

/-! # Definitions and the rules that find them

Grammars name their nodes differently. `Rules` is what is asked of a language: which nodes are
definitions, imports, calls or attached to the next node, and where a definition keeps its
parameters, its result type, its documentation and its decorators.

A definition is found at a node, its outermost one, and its body is a proper part of that
node; the type says so, and the recursion into nested definitions rests on it.

* `Definition`, `Site`: a definition, and one with the siblings before it.
* `Definition.signature?`: the text up to the body.
* `leadingComments?`, `leadingNodes`: what stands right above a definition.
-/

namespace SourceIndex

/-- An entry of a parameter list. -/
structure Parameter where
  /-- The name as written, marks included. -/
  name : String
  typeText : Option String
  default : Option String
  deriving DecidableEq, Repr, Inhabited

/-- A parameter without annotation and default. -/
def Parameter.named (name : String) : Parameter := ⟨name, none, none⟩

/-- What a definition is. -/
inductive Role where
  /-- A class, record, trait, interface, namespace and the like. -/
  | container
  /-- A function, which is a method inside a container. -/
  | function
  /-- A method by its own form. -/
  | method
  deriving DecidableEq, Repr, Inhabited

/-- A definition found at the node `outer`. -/
structure Definition (outer : Node) where
  role : Role
  name : String
  /-- The node with the parameters and the result type. -/
  core : Node
  /-- The node whose children may be nested definitions. -/
  body : Option Node
  /-- The byte offset at which the signature begins. -/
  signatureStart : Nat
  /-- The type a method is attached to from outside. -/
  receiver : Option String
  body_inside : ∀ b, body = some b → sizeOf b < sizeOf outer

namespace Definition

/-- A definition whose node is its outermost one and whose body is the field `body`. -/
def ofNode (role : Role) (name : String) (n : Node) : Definition n where
  role
  name
  core := n
  body := n.child? "body"
  signatureStart := n.start.byte
  receiver := none
  body_inside _ h := Node.sizeOf_lt_of_child? h

/-- The same definition found at a larger node. -/
def widen {m : Node} (d : Definition m) (n : Node) (h : sizeOf m < sizeOf n) : Definition n where
  role := d.role
  name := d.name
  core := d.core
  body := d.body
  signatureStart := d.signatureStart
  receiver := d.receiver
  body_inside b hb := Nat.lt_trans (d.body_inside b hb) h

/-- The text from the beginning of the signature to the body, on one line, without the marks
that open a body or end a declaration. Without a body it ends at the first brace. -/
def signature? {outer : Node} (d : Definition outer) (source : String) : Option String :=
  let stop :=
    match d.body with
    | some b => b.start.byte
    | none => d.core.stop.byte
  match Text.slice? source d.signatureStart stop with
  | none => none
  | some t =>
    let t := if d.body.isNone then String.ofList (t.toList.takeWhile (· != '{')) else t
    let t := Text.trimRightWhere (fun c => c == ':' || c == ';' || c == '=' || c == '{')
      (Text.collapse t)
    let t := Text.trim (Text.trimTails "=>" t)
    if t = "" then none else some t

end Definition

/-- A definition in its place: its outermost node and the named siblings before that node, the
nearest one first. -/
structure Site where
  outer : Node
  before : List Node
  definition : Definition outer

/-- What is asked of a language's syntax trees. -/
structure Rules where
  /-- The definition a node is. -/
  definition? (source : String) (n : Node) : Option (Definition n)
  /-- Whether a node imports something into its file. -/
  isImport (n : Node) : Bool
  /-- The name of what a node calls, if it is a call. -/
  callee? (source : String) (n : Node) : Option String
  /-- The parameters of a definition, in order. -/
  parameters (source : String) (s : Site) : List Parameter
  /-- The result type of a definition. -/
  returnType? (source : String) (s : Site) : Option String
  /-- The documentation of a definition, as written. -/
  docstring? (source : String) (s : Site) : Option String
  /-- Decorators, annotations and attributes of a definition, in order. -/
  decorators (source : String) (s : Site) : List String
  /-- Whether a node belongs to the node after it. -/
  isTrivia (n : Node) : Bool

/-! ## Names and types -/

/-- The kinds of nodes that are a name. -/
def nameKinds : List String :=
  ["identifier", "field_identifier", "property_identifier", "type_identifier",
   "private_property_identifier", "destructor_name", "operator_name",
   "shorthand_property_identifier"]

/-- The fields in which qualified expressions of each kind keep their last part. -/
def qualifiedFields : List (List String × List String) :=
  [(["attribute"], ["attribute"]),
   (["member_expression"], ["property"]),
   (["field_expression", "selector_expression"], ["field"]),
   (["scoped_identifier", "qualified_identifier", "template_function"], ["name"]),
   (["generic_function", "generic_type"], ["function", "type"]),
   (["scoped_type_identifier"], ["name"])]

/-- The child at which a qualified expression keeps its last part. -/
def qualifiedChild? (n : Node) : Option Node :=
  match qualifiedFields.find? fun row => row.1.contains n.kind with
  | none => none
  | some row => row.2.findSome? n.child?

theorem sizeOf_lt_of_qualifiedChild? {m n : Node} (h : qualifiedChild? n = some m) :
    sizeOf m < sizeOf n := by
  unfold qualifiedChild? at h
  split at h
  · contradiction
  · obtain ⟨field, _, hf⟩ := List.exists_of_findSome?_eq_some h
    exact Node.sizeOf_lt_of_child? hf

/-- The last name of an expression that may be qualified. -/
def lastName? (source : String) (n : Node) : Option String :=
  if nameKinds.contains n.kind then
    let t := n.trimmedText source
    if t = "" then none else some t
  else
    match h : qualifiedChild? n with
    | none => none
    | some m =>
      have : sizeOf m < sizeOf n := sizeOf_lt_of_qualifiedChild? h
      lastName? source m
termination_by sizeOf n

/-- The last name in the child with a field. -/
def lastNameIn? (source : String) (n : Node) (field : String) : Option String :=
  (n.child? field).bind (lastName? source)

/-- The last name of what a call node of the given kind calls. -/
def calleeOf? (kind source : String) (n : Node) : Option String :=
  if n.kind = kind then lastNameIn? source n "function" else none

/-- A type annotation without the mark before it. -/
def annotationText? (text : String) : Option String :=
  let t := Text.trim (Text.trimLeads "->" (Text.trimLeftWhere (· == ':') (Text.trim text)))
  if t = "" then none else some (Text.collapse t)

/-- The type annotation in the child with a field. -/
def annotationIn? (source : String) (n : Node) (field : String) : Option String :=
  (n.child? field).bind fun m => annotationText? (m.text source)

/-! ## What stands above a definition -/

/-- The comments right above the row `boundary`, put in front of `found`. Nodes that satisfy
`skip` may stand between; a blank row, another node, a comment that `accepts` refuses, or the
beginning of a block comment ends the search. -/
def commentsAbove (source : String) (accepts : String → Bool) (skip : Node → Bool) :
    (boundary : Nat) → (before : List Node) → (found : List String) → List String
  | _, [], found => found
  | boundary, n :: before, found =>
    if n.lastRow + 1 < boundary then found
    else if skip n then commentsAbove source accepts skip n.start.row before found
    else if !n.isComment then found
    else
      let t := n.text source
      let bare := Text.trimLeft t
      if !accepts bare then found
      else
        let found := Text.trimRight t :: found
        if Text.startsWith bare "/*" then found
        else commentsAbove source accepts skip n.start.row before found

/-- The documentation comments right above a definition, one a line. -/
def leadingComments? (source : String) (accepts : String → Bool) (skip : Node → Bool) (s : Site) :
    Option String :=
  match commentsAbove source accepts skip s.outer.start.row s.before [] with
  | [] => none
  | found => some (Text.unlines found)

/-- The texts of the nodes before a definition that satisfy `p`, in order; comments may stand
between them. -/
def leadingNodes (source : String) (p : Node → Bool) (s : Site) : List String :=
  let near := s.before.takeWhile fun n => p n || n.isComment
  (near.filter p).reverse.map fun n => n.trimmedText source

/-- Whether a comment begins with `///` or `/**`. -/
def isDocComment (text : String) : Bool :=
  Text.startsWith text "///" || Text.startsWith text "/**"

end SourceIndex
