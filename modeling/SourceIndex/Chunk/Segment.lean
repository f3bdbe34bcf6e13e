import SourceIndex.Syntax.Rules

set_option autoImplicit false

/-! # Segments

The top of a file is a sequence of segments, each a definition or a run of other statements.
Segments are ranges of rows, ends included.

1. `segmentsOf` reads them off the children of the root: a child that begins on a row already
   taken widens the last segment, and statements join a run as long as it stays below the
   maximum of lines.
2. `tile` gives each segment the rows between it and the one before, and the last one all rows
   to the end of the file.
3. `mergeShort` gives the rows of short runs to a neighbour.
-/

namespace SourceIndex

/-- What a segment holds. -/
inductive Piece where
  | definition (site : Site)
  | statements

/-- Whether a piece is a run of statements. -/
def Piece.isStatements : Piece → Bool
  | .statements => true
  | .definition _ => false

/-- A range of rows at the top of a file. -/
structure Segment where
  piece : Piece
  start : Nat
  stop : Nat

namespace Segment

/-- How many rows a segment has. -/
def size (s : Segment) : Nat := s.stop - s.start + 1

/-- The segments with one more child of the root; the last segment stands first. -/
def extend (rules : Rules) (source : String) (maxLines : Nat) (done : List Segment)
    (n : Node) (before : List Node) : List Segment :=
  let fresh : List Segment :=
    match rules.definition? source n with
    | some d => ⟨.definition ⟨n, before, d⟩, n.start.row, n.lastRow⟩ :: done
    | none =>
      match done with
      | prev :: rest =>
        if prev.piece.isStatements && n.lastRow - prev.start < maxLines then
          { prev with stop := n.lastRow } :: rest
        else ⟨.statements, n.start.row, n.lastRow⟩ :: done
      | [] => [⟨.statements, n.start.row, n.lastRow⟩]
  match done with
  | prev :: rest =>
    if n.start.row ≤ prev.stop then { prev with stop := max prev.stop n.lastRow } :: rest
    else fresh
  | [] => fresh

/-- The segments of a file, read off the children of its root. -/
def segmentsOf (rules : Rules) (source : String) (maxLines : Nat) (root : Node) : List Segment :=
  ((Node.withBefore [] root.namedChildren).foldl
    (fun done (n, before) =>
      if rules.isTrivia n then done else extend rules source maxLines done n before)
    []).reverse

/-- Each segment from the row after the one before it, the first one from row `first`, and the
last one to row `last` at least. -/
def tile (last : Nat) : (first : Nat) → List Segment → List Segment
  | _, [] => []
  | first, [s] => [{ s with start := first, stop := max s.stop last }]
  | first, s :: t :: rest => { s with start := first } :: tile last (s.stop + 1) (t :: rest)

/-- Segments with each run of fewer than `least` rows given to the segment after it, or the
last one to the segment before it. `carried` is the first row of the runs just passed, `done`
holds the segments so far, the last one first. -/
def mergeShortFrom (least : Nat) : (carried : Option Nat) → (done : List Segment) →
    List Segment → List Segment
  | _, done, [] => done.reverse
  | carried, done, s :: rest =>
    let s := { s with start := carried.getD s.start }
    if s.piece.isStatements && s.size < least then
      if rest.isEmpty then
        match done with
        | prev :: older => ({ prev with stop := s.stop } :: older).reverse
        | [] => [s]
      else mergeShortFrom least (some s.start) done rest
    else mergeShortFrom least none (s :: done) rest

/-- Segments with the short runs given to their neighbours. -/
def mergeShort (least : Nat) (segments : List Segment) : List Segment :=
  mergeShortFrom least none [] segments

/-- The segments that tile the rows up to `last`. -/
def layout (rules : Rules) (source : String) (maxLines minLines last : Nat) (root : Node) :
    List Segment :=
  let found := segmentsOf rules source maxLines root
  let found := if found.isEmpty then [⟨.statements, 0, last⟩] else found
  mergeShort minLines (tile last 0 found)

end Segment

end SourceIndex
