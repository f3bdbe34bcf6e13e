import SourceIndex.Chunk.Basic
import SourceIndex.Syntax.Rules

set_option autoImplicit false

/-! # Splitting large definitions

A definition with too many lines gets children: the definitions directly in its body, each with
the comments and attributes right above it, or, if there are none, windows of whole statements.
In the text of the parent each child is replaced by its heading line and dots.

* `nestedDefinitions`, `statementWindows`: the two kinds of children.
* `planChildren`: which of them a definition gets.
* `elided`: the text of a parent.
-/

namespace SourceIndex

/-- A planned child of the definition found at `outer`, with its range of rows. -/
inductive Child (outer : Node) where
  /-- A nested definition. -/
  | definition (site : Site) (inside : sizeOf site.outer < sizeOf outer) (start stop : Nat)
  /-- A run of statements. -/
  | window (statements : List Node) (start stop : Nat)

namespace Child

variable {outer : Node}

/-- The first row. -/
def start : Child outer → Nat
  | .definition _ _ start _ => start
  | .window _ start _ => start

/-- The last row. -/
def stop : Child outer → Nat
  | .definition _ _ _ stop => stop
  | .window _ _ stop => stop

/-- The ids of the nodes that belong to the child. -/
def nodeIds : Child outer → List Nat
  | .definition site _ _ _ => [site.outer.id]
  | .window statements _ _ => statements.map (·.id)

/-! ## Nested definitions -/

/-- The definitions among the nodes `ns` of a body. `before` holds the nodes already passed,
the nearest one first, `lead` the first row of the comments and attributes right before, and
`floor` the first row that no node passed has touched. -/
def nestedFrom (rules : Rules) (source : String) (outer : Node) (before : List Node)
    (lead : Option Nat) (floor : Nat) :
    (ns : List Node) → (∀ m ∈ ns, sizeOf m < sizeOf outer) → List (Child outer)
  | [], _ => []
  | n :: ns, inside =>
    have insideRest : ∀ m ∈ ns, sizeOf m < sizeOf outer := fun m h =>
      inside m (List.mem_cons_of_mem n h)
    let row := n.start.row
    if rules.isTrivia n then
      nestedFrom rules source outer (n :: before) (some (lead.getD row)) floor ns insideRest
    else
      let rest :=
        nestedFrom rules source outer (n :: before) none (max floor (n.lastRow + 1)) ns insideRest
      if row < floor then rest
      else
        match rules.definition? source n with
        | none => rest
        | some d =>
          let first := min (max (lead.getD row) floor) row
          .definition ⟨n, before, d⟩ (inside n List.mem_cons_self) first n.lastRow :: rest

/-- The definitions directly in the body of a definition. -/
def nestedDefinitions (rules : Rules) (source : String) (d : Definition outer) :
    List (Child outer) :=
  match h : d.body with
  | none => []
  | some body =>
    nestedFrom rules source outer [] none 0 body.namedChildren fun _ hm =>
      Nat.lt_trans (Node.sizeOf_lt_of_mem_named hm) (d.body_inside body h)

/-! ## Statement windows -/

/-- The kinds of bodies that only wrap a list of statements. -/
def containerKinds : List String :=
  ["block", "statement_block", "statement_list", "compound_statement", "declaration_list",
   "field_declaration_list"]

/-- The node that holds the statements of a body: a sole child that is a body itself is
entered. -/
def statementContainer (n : Node) : Node :=
  match h : n.namedChildren with
  | [only] =>
    if containerKinds.contains only.kind then
      have : sizeOf only < sizeOf n := Node.sizeOf_lt_of_mem_named (h ▸ List.mem_singleton_self only)
      statementContainer only
    else n
  | _ => n
termination_by sizeOf n

/-- The windows with one more statement, the last window first, its statements reversed. A
statement joins the last window if it begins on one of its rows, or if the window stays within
the maximum of lines. -/
def addStatement (maxLines : Nat) (done : List (List Node × Nat × Nat)) (n : Node) :
    List (List Node × Nat × Nat) :=
  match done with
  | (ns, start, stop) :: rest =>
    let last := max n.lastRow stop
    if n.start.row ≤ stop ∨ last - start < maxLines then (n :: ns, start, last) :: rest
    else ([n], n.start.row, n.lastRow) :: done
  | [] => [([n], n.start.row, n.lastRow)]

/-- Statements in windows of at most `maxLines` lines where they allow it. -/
def statementRuns (maxLines : Nat) (statements : List Node) : List (List Node × Nat × Nat) :=
  ((statements.foldl (addStatement maxLines) []).map fun (ns, start, stop) =>
    (ns.reverse, start, stop)).reverse

/-- The windows of the statements of a body. -/
def statementWindows (outer : Node) (maxLines : Nat) (body : Node) : List (Child outer) :=
  (statementRuns maxLines (statementContainer body).namedChildren).map fun (ns, start, stop) =>
    .window ns start stop

/-! ## Plans -/

/-- The children of a definition that is too large: its nested definitions, or else its
statement windows if there are two at least. -/
def planChildren (rules : Rules) (source : String) (maxLines : Nat) (d : Definition outer) :
    List (Child outer) :=
  match nestedDefinitions rules source d with
  | [] =>
    match d.body with
    | none => []
    | some body =>
      let runs := statementWindows outer maxLines body
      if 1 < runs.length then runs else []
  | nested => nested

/-! ## The text of a parent -/

/-- The lines of the rows from `first` up to but not including `last`. -/
def rows (lines : List String) (first last : Nat) : List String :=
  (lines.drop first).take (last - first)

/-- The blanks at the beginning of a line. -/
def indentation (line : String) : String :=
  String.ofList (line.toList.takeWhile Text.isBlank)

/-- The lines that stand for a child in its parent. -/
def placeholder (lines : List String) : Child outer → List String
  | .definition site _ start stop =>
    let header := lines.getD (min (max site.definition.core.start.row start) stop) ""
    [header, indentation header ++ "    ..."]
  | .window _ start _ => [indentation (lines.getD start "") ++ "..."]

/-- The lines from `row` to `last`, a placeholder for each child. -/
def elidedFrom (lines : List String) (last : Nat) : (row : Nat) → List (Child outer) → List String
  | row, [] => rows lines row (last + 1)
  | row, c :: cs =>
    rows lines row c.start ++ c.placeholder lines ++ elidedFrom lines last (c.stop + 1) cs

/-- The text of a parent with the given rows. -/
def elided (lines : List String) (first last : Nat) (children : List (Child outer)) : String :=
  Text.unlines (elidedFrom lines last first children)

end Child

end SourceIndex
