import SourceIndex.Chunk.Basic
import SourceIndex.Syntax.Rules

set_option autoImplicit false

/-! # Imports and calls

The imports of a file are the import nodes that lie in no other import. A call counts when its
callee is a function or method defined anywhere in the same file outside of an import. Both are
found by a scan that keeps the nodes ahead of it on a stack.

* `FileFacts.see`: what one node adds.
* `FactScan.next?`, `FactScan.run`: one step of the scan, and all of them.
* `Chunk.callsIn`: the calls in parts of a tree.
-/

namespace SourceIndex

/-- What is known about a file as a whole. -/
structure FileFacts where
  /-- The imports, each on one line. -/
  imports : List String
  /-- The names of the functions and methods, each once. -/
  callables : List String
  deriving Repr, Inhabited

namespace FileFacts

/-- The name of the function or method a node defines. -/
def callable? (rules : Rules) (source : String) (n : Node) : Option String :=
  match rules.definition? source n with
  | some d => if d.role = .container then none else some d.name
  | none => none

/-- The facts with what a node adds to them: an import its text, a definition its name. -/
def see (rules : Rules) (source : String) (facts : FileFacts) (n : Node) : FileFacts :=
  if rules.isImport n then
    { facts with imports := facts.imports ++ [Text.collapse (n.text source)] }
  else
    match callable? rules source n with
    | some name => { facts with callables := facts.callables.insert name }
    | none => facts

end FileFacts

/-- A scan of a tree on its way. -/
structure FactScan where
  /-- A stack of the nodes that still have to be seen, its top first. -/
  ahead : List Node
  facts : FileFacts

namespace FactScan

/-- The stack after nodes were pushed on it one after the other. -/
def push (ns stack : List Node) : List Node := ns.foldl (fun stack n => n :: stack) stack

theorem push_reverse (ns stack : List Node) : push ns.reverse stack = ns ++ stack := by
  rw [push, List.foldl_reverse, List.foldr_cons_eq_append, List.map_id']

/-- What lies on the stack once a node is taken from its top: the scan goes on below the node unless
it is an import. -/
def below (rules : Rules) (n : Node) (rest : List Node) : List Node :=
  if rules.isImport n then rest else push n.namedChildren.reverse rest

/-- The node a scan sees next and the scan after it, if a node is left. -/
def next? (rules : Rules) (source : String) (s : FactScan) : Option (Node × FactScan) :=
  match s.ahead with
  | [] => none
  | n :: rest => some (n, ⟨below rules n rest, s.facts.see rules source n⟩)

/-- With each step the stack becomes smaller. -/
theorem sizeOf_ahead_lt {rules : Rules} {source : String} {s t : FactScan} {n : Node}
    (h : s.next? rules source = some (n, t)) : sizeOf t.ahead < sizeOf s.ahead := by
  rw [next?] at h
  split at h
  · cases h
  · next m rest hahead =>
    cases h
    show sizeOf (below rules n rest) < sizeOf s.ahead
    rw [hahead, below]
    split
    · rw [List.cons.sizeOf_spec]
      omega
    · rw [push_reverse]
      exact n.sizeOf_namedChildren_append_lt rest

/-- The facts at the end of a scan. -/
def run (rules : Rules) (source : String) (s : FactScan) : FileFacts :=
  match _hnext : s.next? rules source with
  | none => s.facts
  | some (_, t) => run rules source t
termination_by sizeOf s.ahead
decreasing_by exact sizeOf_ahead_lt (by assumption)

end FactScan

/-- The facts of the file with the given tree. -/
def FileFacts.ofTree (rules : Rules) (source : String) (root : Node) : FileFacts :=
  FactScan.run rules source ⟨[root], ⟨[], []⟩⟩

namespace CallEdge

/-- The order of calls: by line, then by name. -/
def le (a b : CallEdge) : Bool :=
  a.line < b.line || (a.line == b.line && Text.le a.callee b.callee)

/-- A call put in its place among ordered calls, once. -/
def insert (e : CallEdge) : List CallEdge → List CallEdge
  | [] => [e]
  | a :: rest =>
    if e = a then a :: rest
    else if e.le a then e :: a :: rest
    else a :: insert e rest

end CallEdge

namespace Chunk

/-- The nodes of the given trees without the subtrees whose roots are excluded. -/
def nodesOutside (excluded : List Nat) (roots : List Node) : List Node :=
  (roots.flatMap (Node.walk fun n => excluded.contains n.id)).filter
    fun n => !excluded.contains n.id

/-- The call at a node, if its callee is among `callables`. -/
def call? (rules : Rules) (source : String) (callables : List String) (n : Node) :
    Option CallEdge :=
  match rules.callee? source n with
  | some callee => if callables.contains callee then some ⟨callee, n.start.row + 1⟩ else none
  | none => none

/-- The calls in the given trees outside the excluded subtrees, by line and name. -/
def callsIn (rules : Rules) (source : String) (callables : List String) (excluded : List Nat)
    (roots : List Node) : List CallEdge :=
  ((nodesOutside excluded roots).filterMap (call? rules source callables)).foldr
    CallEdge.insert []

end Chunk

end SourceIndex
