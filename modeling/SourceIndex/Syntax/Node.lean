import SourceIndex.Text.Basic

set_option autoImplicit false

/-! # Concrete syntax trees

A node covers the bytes of a text between two positions. It has a kind, may have a field name
in its parent, and its children stand in the order of the text. Nodes with a name in the
grammar are told apart from punctuation and keywords.

* `Position.ofByte`: rows and columns as counted in a text.
* `Node.ofRows?`: the tree given by its nodes in pre-order, each with its depth.
* `Node.child?`, `Node.namedChildren`, `Node.text`, `Node.lastRow`: what rules ask of a node.
* `Node.walk`: the named nodes in pre-order, without what lies below certain nodes.
-/

namespace SourceIndex

/-- A place in a text: a byte offset, the number of newlines before it, and the number of bytes
since the last of these. -/
structure Position where
  byte : Nat
  row : Nat
  column : Nat
  deriving DecidableEq, Repr, Inhabited

namespace Position

/-- The byte offsets of the newlines among characters that begin at the offset `start`. -/
def newlineOffsetsFrom : (start : Nat) → List Char → List Nat
  | _, [] => []
  | start, c :: cs =>
    let rest := newlineOffsetsFrom (start + c.utf8Size) cs
    if c = '\n' then start :: rest else rest

/-- The byte offsets of the newlines of a text. -/
def newlineOffsets (text : String) : List Nat := newlineOffsetsFrom 0 text.toList

/-- The position of a byte offset, given the offsets of the newlines in increasing order. -/
def ofByte (newlines : List Nat) (byte : Nat) : Position :=
  let passed := newlines.takeWhile (· < byte)
  let lineStart :=
    match passed.getLast? with
    | none => 0
    | some n => n + 1
  ⟨byte, passed.length, byte - lineStart⟩

end Position

/-- A node of a syntax tree; `id` tells it from all other nodes of its tree. -/
structure Node where
  id : Nat
  kind : String
  named : Bool
  /-- The field the node has in its parent, or the empty text. -/
  field : String
  start : Position
  stop : Position
  children : List Node
  deriving Inhabited

namespace Node

/-! ## Size -/

theorem sizeOf_children_lt (n : Node) : sizeOf n.children < sizeOf n := by
  cases n
  simp only [Node.mk.sizeOf_spec]
  omega

theorem sizeOf_lt_of_mem {m n : Node} (h : m ∈ n.children) : sizeOf m < sizeOf n :=
  Nat.lt_trans (List.sizeOf_lt_of_mem h) (sizeOf_children_lt n)

/-! ## Children -/

/-- The children that are named. -/
def namedChildren (n : Node) : List Node := n.children.filter (·.named)

/-- The first child with a field. -/
def child? (n : Node) (field : String) : Option Node := n.children.find? (·.field == field)

/-- All children with a field. -/
def childrenWith (n : Node) (field : String) : List Node := n.children.filter (·.field == field)

theorem sizeOf_lt_of_mem_named {m n : Node} (h : m ∈ n.namedChildren) : sizeOf m < sizeOf n :=
  sizeOf_lt_of_mem (List.mem_filter.mp h).1

theorem sizeOf_lt_of_child? {m n : Node} {field : String} (h : n.child? field = some m) :
    sizeOf m < sizeOf n :=
  sizeOf_lt_of_mem (List.mem_of_find?_eq_some h)

theorem sizeOf_lt_of_head? {m n : Node} (h : n.namedChildren.head? = some m) :
    sizeOf m < sizeOf n :=
  sizeOf_lt_of_mem_named (List.mem_of_head? h)

theorem sizeOf_namedChildren_append_lt (n : Node) (rest : List Node) :
    sizeOf (n.namedChildren ++ rest) < sizeOf (n :: rest) := by
  have hnamed : ∀ ns : List Node,
      sizeOf (ns.filter (·.named) ++ rest) < sizeOf ns + sizeOf rest := by
    intro ns
    induction ns with
    | nil => simp
    | cons m ns ih =>
      rw [List.filter_cons, List.cons.sizeOf_spec]
      split
      · rw [List.cons_append, List.cons.sizeOf_spec]
        omega
      · omega
  have hchildren := n.sizeOf_children_lt
  have hlt := hnamed n.children
  rw [List.cons.sizeOf_spec, namedChildren]
  omega

/-- The first child with a field, or else the first named child. -/
def childOrFirst? (n : Node) (field : String) : Option Node :=
  match n.child? field with
  | some m => some m
  | none => n.namedChildren.head?

theorem sizeOf_lt_of_childOrFirst? {m n : Node} {field : String}
    (h : n.childOrFirst? field = some m) : sizeOf m < sizeOf n := by
  unfold childOrFirst? at h
  split at h
  · next c hc =>
    cases h
    exact sizeOf_lt_of_child? hc
  · exact sizeOf_lt_of_head? h

/-! ## Text and rows -/

/-- The text a node covers. -/
def text (n : Node) (source : String) : String :=
  (Text.slice? source n.start.byte n.stop.byte).getD ""

/-- The text a node covers without blanks around it. -/
def trimmedText (n : Node) (source : String) : String := Text.trim (n.text source)

/-- The text of the child with a field, unless it is blank. -/
def fieldText? (n : Node) (field source : String) : Option String :=
  match n.child? field with
  | none => none
  | some m =>
    let t := m.trimmedText source
    if t = "" then none else some t

/-- The last row a node touches; one that ends at the beginning of a row does not touch it. -/
def lastRow (n : Node) : Nat :=
  if n.stop.column = 0 ∧ n.start.row < n.stop.row then n.stop.row - 1 else n.stop.row

/-- Whether a node is a comment of any kind. -/
def isComment (n : Node) : Bool := Text.contains n.kind "comment"

/-! ## Traversal -/

/-- The named nodes of a tree in pre-order, the root always among them, without the nodes
below one that satisfies `stop`. -/
def walk (stop : Node → Bool) (n : Node) : List Node :=
  if stop n then [n]
  else n :: n.namedChildren.attach.flatMap fun ⟨m, _⟩ => walk stop m
termination_by sizeOf n
decreasing_by exact sizeOf_lt_of_mem_named (by assumption)

/-- Each node of a list with the nodes before it, the nearest one first. -/
def withBefore (before : List Node) : List Node → List (Node × List Node)
  | [] => []
  | n :: rest => (n, before) :: withBefore (n :: before) rest

/-! ## Trees as tables -/

/-- A row of a tree's table: a node with its depth, its offsets given in bytes. -/
structure Row where
  depth : Nat
  kind : String
  named : Bool
  field : String
  start : Nat
  stop : Nat
  deriving Repr, Inhabited

/-- A node with its depth put in front of the trees that follow it; those that are deeper
become its children. -/
def graft (newlines : List Nat) (row : Row) (id : Nat) (later : List (Nat × Node)) :
    List (Nat × Node) :=
  let below := later.takeWhile fun t => row.depth < t.1
  let node : Node :=
    { id, kind := row.kind, named := row.named, field := row.field
      start := Position.ofByte newlines row.start
      stop := Position.ofByte newlines row.stop
      children := below.map (·.2) }
  (row.depth, node) :: later.drop below.length

/-- The tree with the given rows in pre-order over a text; nodes are numbered in this
order. -/
def ofRows? (source : String) (rows : List Row) : Option Node :=
  let newlines := Position.newlineOffsets source
  let trees := rows.zipIdx.foldr (fun (row, id) later => graft newlines row id later) []
  match trees with
  | [(_, root)] => some root
  | _ => none

end Node

end SourceIndex
