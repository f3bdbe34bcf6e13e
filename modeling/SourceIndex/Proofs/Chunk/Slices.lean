import Mathlib
import SourceIndex.Proofs.Chunk.Forest

/-! # Rows are in range

Chunks are cut out of the lines of a file by row numbers. Here the same cutting is done with every
row number checked: a slice fails if it begins after its end or reaches beyond the last line, and so
does the look at a line that is not there. For a well-formed tree nothing fails, and the chunks are
the same (`Chunk.ofTree?_eq`), because the rows of the planned children follow one another
(`Child.Ordered`).
-/

set_option autoImplicit false

namespace SourceIndex

namespace Child

variable {outer : Node} {lines : List String}

/-! ## Children in order -/

/-- The children lie one after the other on the rows from `row` to `last`. -/
def Ordered (last : Nat) : (row : Nat) → List (Child outer) → Prop
  | _, [] => True
  | row, c :: cs => row ≤ c.start ∧ c.start ≤ c.stop ∧ c.stop ≤ last ∧ Ordered last (c.stop + 1) cs

theorem ordered_of_apart {last row : Nat} {cs : List (Child outer)}
    (hapart : cs.Pairwise fun c d => c.stop < d.start)
    (hfits : ∀ c ∈ cs, row ≤ c.start ∧ c.start ≤ c.stop ∧ c.stop ≤ last) : Ordered last row cs := by
  induction cs generalizing row with
  | nil => trivial
  | cons c cs ih =>
    obtain ⟨hafter, hapart⟩ := List.pairwise_cons.mp hapart
    obtain ⟨hstart, hle, hlast⟩ := hfits c List.mem_cons_self
    refine ⟨hstart, hle, hlast, ih hapart fun d hd => ⟨hafter d hd, ?_⟩⟩
    exact (hfits d (List.mem_cons_of_mem c hd)).2

/-- Planned children are in order on any rows around those of their definition. -/
theorem Planned.ordered {P : Site → Prop} {first last first' last' : Nat} {cs : List (Child outer)}
    (h : Planned P first last cs) (hfirst : first' ≤ first) (hlast : last ≤ last') :
    Ordered last' first' cs := by
  refine ordered_of_apart h.apart fun c hc => ?_
  have hfits := h.fits c hc
  exact ⟨hfirst.trans hfits.first_le, hfits.start_le, hfits.le_last.trans hlast⟩

/-! ## Checked slices -/

/-- The lines of the rows from `first` up to but not including `bound`, if the file has them and
there is no step back. -/
def slice? (lines : List String) (first bound : Nat) : Option (List String) :=
  if first ≤ bound ∧ bound ≤ lines.length then some (rows lines first bound) else none

theorem slice?_eq {first bound : Nat} (hle : first ≤ bound) (hbound : bound ≤ lines.length) :
    slice? lines first bound = some (rows lines first bound) :=
  if_pos ⟨hle, hbound⟩

/-- The lines that stand for a child in its parent, if its rows are in order and the line that is
shown is there. -/
def placeholder? (lines : List String) : Child outer → Option (List String)
  | .definition site _ start stop =>
    if start ≤ stop then
      lines[min (max site.definition.core.start.row start) stop]?.map fun header =>
        [header, indentation header ++ "    ..."]
    else none
  | .window _ start _ => lines[start]?.map fun line => [indentation line ++ "..."]

theorem placeholder?_eq {c : Child outer} (hle : c.start ≤ c.stop) (hstop : c.stop < lines.length) :
    c.placeholder? lines = some (c.placeholder lines) := by
  cases c with
  | definition site inside start stop =>
    have hrow : min (max site.definition.core.start.row start) stop < lines.length :=
      (Nat.min_le_right _ _).trans_lt hstop
    have hle : start ≤ stop := hle
    rw [placeholder?, if_pos hle, placeholder, List.getD_eq_getElem _ _ hrow,
      List.getElem?_eq_getElem hrow]
    rfl
  | window statements start stop =>
    have hrow : start < lines.length := hle.trans_lt hstop
    rw [placeholder?, placeholder, List.getD_eq_getElem _ _ hrow, List.getElem?_eq_getElem hrow]
    rfl

/-- The lines from `row` to `last`, a placeholder for each child, if all rows are in range. -/
def elidedFrom? (lines : List String) (last : Nat) : (row : Nat) → List (Child outer) →
    Option (List String)
  | row, [] => if row ≤ last then slice? lines row (last + 1) else some []
  | row, c :: cs => do
    let gap ← slice? lines row c.start
    let shown ← c.placeholder? lines
    let rest ← elidedFrom? lines last (c.stop + 1) cs
    return gap ++ shown ++ rest

theorem elidedFrom?_eq {last row : Nat} {cs : List (Child outer)} (hordered : Ordered last row cs)
    (hlast : last < lines.length) :
    elidedFrom? lines last row cs = some (elidedFrom lines last row cs) := by
  induction cs generalizing row with
  | nil =>
    rw [elidedFrom?, elidedFrom]
    split
    · rename_i hle
      exact slice?_eq (Nat.le_succ_of_le hle) hlast
    · -- the last child reaches the last row
      rw [rows, Nat.sub_eq_zero_of_le (by omega), List.take_zero]
  | cons c cs ih =>
    obtain ⟨hstart, hle, hstop, hrest⟩ := hordered
    rw [elidedFrom?, slice?_eq hstart (by omega), placeholder?_eq hle (by omega), ih hrest]
    rfl

end Child

namespace Chunk

/-! ## Checked chunks -/

/-- The text of rows, if the file has them and the last one is not before the first. -/
def Context.rowsText? (x : Context) (first last : Nat) : Option String :=
  let last := min last x.lastRow
  if first ≤ last then (Child.slice? x.lines first (last + 1)).map Text.unlines else none

/-- The content of a definition, if all rows are in range. -/
def definitionContent? (x : Context) (site : Site) (first last : Nat) : Option String :=
  let children := plannedFor x site first last
  if children.isEmpty then x.rowsText? first last
  else (Child.elidedFrom? x.lines last first children).map Text.unlines

/-- The chunk of a statement window with the given content. -/
def windowChunkOf (x : Context) (scope : String) (depth : Nat) (statements : List Node)
    (first last : Nat) (content : String) : Chunk :=
  let c := (x.baseChunk .window first last content).rename (scope ++ "@" ++ toString (first + 1))
  { c with depth, calls := x.calls [] statements }

/-- The draft of a definition, if all rows are in range. -/
def definitionDraft? (x : Context) (site : Site) (first last : Nat) (fullPath : String)
    (kind : ChunkKind) (depth : Nat) : Option Draft := do
  let content ← definitionContent? x site first last
  let below ← (plannedFor x site first last).mapM fun
    | .definition s _ start stop =>
      definitionDraft? x s start stop (fullPath ++ "." ++ s.definition.name)
        (kindOf s.definition.role (some kind)) (depth + 1)
    | .window statements start stop => do
      let content ← x.rowsText? start stop
      return .mk (windowChunkOf x fullPath (depth + 1) statements start stop content) []
  return .mk (definitionChunk x site first last fullPath kind depth content) below
termination_by sizeOf site.outer

/-- The draft of a child, if all rows are in range. -/
def childDraft? (x : Context) (scope : String) (kind : ChunkKind) (depth : Nat) {outer : Node} :
    Child outer → Option Draft
  | .definition s _ start stop =>
    definitionDraft? x s start stop (scope ++ "." ++ s.definition.name)
      (kindOf s.definition.role (some kind)) depth
  | .window statements start stop => do
    let content ← x.rowsText? start stop
    return .mk (windowChunkOf x scope depth statements start stop content) []

theorem definitionDraft?_mk (x : Context) (site : Site) (first last : Nat) (fullPath : String)
    (kind : ChunkKind) (depth : Nat) :
    definitionDraft? x site first last fullPath kind depth = (do
      let content ← definitionContent? x site first last
      let below ← (plannedFor x site first last).mapM (childDraft? x fullPath kind (depth + 1))
      return .mk (definitionChunk x site first last fullPath kind depth content) below) := by
  rw [definitionDraft?]
  have hchild : ∀ child : Child site.outer, (match child with
      | .definition s _ start stop =>
        definitionDraft? x s start stop (fullPath ++ "." ++ s.definition.name)
          (kindOf s.definition.role (some kind)) (depth + 1)
      | .window statements start stop => do
        let content ← x.rowsText? start stop
        return .mk (windowChunkOf x fullPath (depth + 1) statements start stop content) []) =
      childDraft? x fullPath kind (depth + 1) child := by
    intro child
    cases child <;> rfl
  simp only [hchild]

/-- The draft of a segment, if all rows are in range. -/
def segmentDraft? (x : Context) (s : Segment) : Option Draft :=
  match s.piece with
  | .definition site =>
    let d := site.definition
    definitionDraft? x site s.start s.stop (topPath x.file.path d.receiver d.name)
      (kindOf d.role none) 0
  | .statements => (x.rowsText? s.start s.stop).map fun content =>
    .mk (x.baseChunk .module s.start s.stop content) []

/-- The chunks of a file with the given tree, if all rows are in range. -/
def ofTree? (rules : Rules) (file : SourceFile) (limits : ChunkLimits) (root : Node) :
    Option (List Chunk) :=
  let x := contextOf rules file limits root
  ((Segment.layout x.rules x.source x.limits.maxLines x.limits.minLines x.lastRow root).mapM
    (segmentDraft? x)).map fun ds => (Draft.listAll none [] ds).1

/-! ## Nothing fails -/

variable {x : Context}

theorem mapM_eq_some {α β : Type} {f : α → Option β} {g : α → β} {l : List α}
    (h : ∀ a ∈ l, f a = some (g a)) : l.mapM f = some (l.map g) := by
  induction l with
  | nil => rfl
  | cons a l ih =>
    rw [List.mapM_cons, h a List.mem_cons_self, ih fun b hb => h b (List.mem_cons_of_mem a hb)]
    rfl

theorem rowsText?_eq {first last : Nat} (hle : first ≤ last) (hlast : last < x.lines.length) :
    x.rowsText? first last = some (x.rowsText first last) := by
  have hmin : min last x.lastRow = last := by
    rw [Context.lastRow]
    omega
  rw [Context.rowsText?, Context.rowsText, hmin, if_pos hle,
    Child.slice?_eq (Nat.le_succ_of_le hle) hlast]
  rfl

theorem definitionContent?_eq {site : Site} {first last : Nat} (hle : first ≤ last)
    (hlast : last < x.lines.length)
    (hordered : Child.Ordered last first (plannedFor x site first last)) :
    definitionContent? x site first last = some (definitionContent x site first last) := by
  rw [definitionContent?, definitionContent]
  split
  · exact rowsText?_eq hle hlast
  · rw [Child.elidedFrom?_eq hordered hlast]
    rfl

/-- The rows of a definition are those of the file, and so are the rows of its children. -/
theorem definitionDraft?_eq (hrules : x.rules.BodyInside) (site : Site)
    (hsite : site.IsFound x.rules x.source) {first last : Nat}
    (hfirst : first ≤ site.outer.start.row) (hlast : site.outer.lastRow ≤ last)
    (hend : last < x.lines.length) (fullPath : String) (kind : ChunkKind) (depth : Nat) :
    definitionDraft? x site first last fullPath kind depth =
      some (definitionDraft x site first last fullPath kind depth) := by
  have hplanned := planned_plannedFor hrules hsite first last
  have hrange := (hsite.wellFormed.rows hsite.named).1
  have hbelow : ∀ child ∈ plannedFor x site first last,
      childDraft? x fullPath kind (depth + 1) child =
        some (childDraft x fullPath kind (depth + 1) child) := by
    intro child hchild
    have hfits := hplanned.fits child hchild
    have hstop : child.stop < x.lines.length := hfits.le_last.trans_lt (hlast.trans_lt hend)
    cases child with
    | definition s inside start stop =>
      obtain ⟨hs, hbegin, hover⟩ := hfits.covers s inside start stop rfl
      exact definitionDraft?_eq hrules s hs hbegin hover hstop _ _ _
    | window statements start stop =>
      have hle : start ≤ stop := hfits.start_le
      rw [childDraft?, rowsText?_eq hle hstop]
      rfl
  rw [definitionDraft?_mk, definitionContent?_eq (by omega) hend (hplanned.ordered hfirst hlast),
    mapM_eq_some hbelow, definitionDraft_mk]
  rfl
termination_by sizeOf site.outer

theorem segmentDraft?_eq (hrules : x.rules.BodyInside) {s : Segment} (hle : s.start ≤ s.stop)
    (hend : s.stop < x.lines.length) (hcovers : s.Covers (Site.IsFound x.rules x.source)) :
    segmentDraft? x s = some (segmentDraft x s) := by
  rw [segmentDraft?, segmentDraft]
  cases hpiece : s.piece with
  | definition site =>
    obtain ⟨hsite, hfirst, hlast⟩ := hcovers site hpiece
    exact definitionDraft?_eq hrules site hsite hfirst hlast hend _ _ _
  | statements =>
    simp only
    rw [rowsText?_eq hle hend]
    rfl

/-- The rows that are cut and looked at are those of the file, for every well-formed tree and all
limits. -/
theorem ofTree?_eq {rules : Rules} {file : SourceFile} (limits : ChunkLimits) {root : Node}
    (hlines : Text.lines file.content ≠ []) (hrules : rules.BodyInside)
    (hroot : root.WellFormed file.content) :
    ofTree? rules file limits root = some (ofTree rules file limits root) := by
  have hpos := List.length_pos_iff.mpr hlines
  obtain ⟨htiles, hcovers⟩ := @tiles_layout rules file root limits hroot
  have hdrafts : (Segment.layout rules file.content limits.maxLines limits.minLines
      ((Text.lines file.content).length - 1) root).mapM
        (segmentDraft? (contextOf rules file limits root)) =
      some (drafts (contextOf rules file limits root) root) := by
    refine mapM_eq_some fun s hs => ?_
    have hrange := List.mem_map_of_mem (f := Segment.range) hs
    have hstop := htiles.lt_of_mem hrange
    rw [Nat.sub_add_cancel hpos] at hstop
    exact segmentDraft?_eq (x := contextOf rules file limits root) hrules
      (htiles.le_of_mem hrange).2 hstop (hcovers s hs)
  show Option.map _ (List.mapM _ _) = _
  rw [ofTree_eq]
  exact congrArg (Option.map fun ds => (Draft.listAll none [] ds).1) hdrafts

end Chunk

end SourceIndex
