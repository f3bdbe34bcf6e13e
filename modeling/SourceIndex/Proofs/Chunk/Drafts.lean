import Mathlib
import SourceIndex.Proofs.Chunk.Listing
import SourceIndex.Proofs.Chunk.Nesting
import SourceIndex.Proofs.Chunk.Tiling

/-! # The drafts of a definition

The draft of a definition is nested (`Chunk.nested_definitionDraft`): the rows of each planned child
are among those of the definition, whatever rows around it the definition was given at the top of
the file.
-/

set_option autoImplicit false

namespace SourceIndex

namespace Chunk

/-! ## Texts -/

/-- Rows beyond the last one are nothing. -/
theorem rowsText_eq (x : Context) (hlines : x.lines ≠ []) (first last : Nat) :
    x.rowsText first last = Text.unlines ((x.lines.drop first).take (last + 1 - first)) := by
  have hpos := List.length_pos_iff.mpr hlines
  rw [Context.rowsText, Context.lastRow, Child.rows]
  congr 1
  rcases Nat.le_total last (x.lines.length - 1) with hle | hle
  · rw [Nat.min_eq_left hle]
  · rw [Nat.min_eq_right hle, List.take_of_length_le, List.take_of_length_le]
    · rw [List.length_drop]
      omega
    · rw [List.length_drop]
      omega

theorem hasText_of_content {x : Context} (hlines : x.lines ≠ []) {first last : Nat} {c : Chunk}
    (hstart : c.startLine = first + 1) (hend : c.endLine = last + 1)
    (hcontent : c.content = x.rowsText first last) : c.HasText x.lines := by
  have hcount : last + 1 + 1 - (first + 1) = last + 1 - first := by omega
  rw [HasText, hcontent, rowsText_eq x hlines, hstart, hend, hcount, Nat.add_sub_cancel]

/-! ## Definitions -/

variable {x : Context}

/-- The children that are planned for a definition on the given rows. -/
def plannedFor (x : Context) (site : Site) (first last : Nat) : List (Child site.outer) :=
  if x.limits.maxLines < last - first + 1 then
    Child.planChildren x.rules x.source x.limits.maxLines site.definition
  else []

/-- The children lie on the rows of the definition, whatever rows around them it is given. -/
theorem planned_plannedFor (hrules : x.rules.BodyInside) {site : Site}
    (hsite : site.IsFound x.rules x.source) (first last : Nat) :
    Child.Planned (Site.IsFound x.rules x.source) site.outer.start.row site.outer.lastRow
      (plannedFor x site first last) := by
  rw [plannedFor]
  split
  · exact hsite.planned_planChildren hrules x.limits.maxLines
  · exact .nil

/-- The draft of a child under the definition with the dotted path `scope`. -/
def childDraft (x : Context) (scope : String) (kind : ChunkKind) (depth : Nat) {outer : Node} :
    Child outer → Draft
  | .definition s _ start stop =>
    definitionDraft x s start stop (scope ++ "." ++ s.definition.name)
      (kindOf s.definition.role (some kind)) depth
  | .window statements start stop => .mk (windowChunk x scope depth statements start stop) []

/-- The content of a definition: the text of its rows, or what is left of it beside its children. -/
def definitionContent (x : Context) (site : Site) (first last : Nat) : String :=
  let children := plannedFor x site first last
  if children.isEmpty then x.rowsText first last else Child.elided x.lines first last children

/-- The chunk of a definition with the given content. -/
def definitionChunk (x : Context) (site : Site) (first last : Nat) (fullPath : String)
    (kind : ChunkKind) (depth : Nat) (content : String) : Chunk :=
  { x.describe site ((x.baseChunk kind first last content).rename fullPath) with
    name := some site.definition.name
    depth
    calls := x.calls ((plannedFor x site first last).flatMap Child.nodeIds) [site.outer] }

/-- The draft of a definition: its chunk, and the drafts of its children below. -/
theorem definitionDraft_mk (x : Context) (site : Site) (first last : Nat) (fullPath : String)
    (kind : ChunkKind) (depth : Nat) :
    definitionDraft x site first last fullPath kind depth =
      .mk (definitionChunk x site first last fullPath kind depth (definitionContent x site first last))
        ((plannedFor x site first last).map (childDraft x fullPath kind (depth + 1))) := by
  rw [definitionDraft]
  refine congrArg (Draft.mk _) (List.map_congr_left fun child _ => ?_)
  cases child <;> rfl

theorem definitionDraft_eq (x : Context) (site : Site) (first last : Nat) (fullPath : String)
    (kind : ChunkKind) (depth : Nat) :
    ∃ c : Chunk, definitionDraft x site first last fullPath kind depth =
        .mk c ((plannedFor x site first last).map (childDraft x fullPath kind (depth + 1))) ∧
      '#' ∉ c.id.toList ∧ c.startLine = first + 1 ∧ c.endLine = last + 1 ∧ c.depth = depth ∧
      c.name = some site.definition.name ∧ c.fullPath = fullPath ∧
      (plannedFor x site first last = [] → c.content = x.rowsText first last) := by
  refine ⟨_, definitionDraft_mk x site first last fullPath kind depth, mark_not_mem_idOf _ _ _ _,
    rfl, rfl, rfl, rfl, rfl, fun hnone => ?_⟩
  show definitionContent x site first last = x.rowsText first last
  rw [definitionContent, hnone]
  rfl

/-- The chunk of a child goes on from the path of its definition. -/
theorem chunk_childDraft (scope : String) (kind : ChunkKind) (depth : Nat) {outer : Node}
    (child : Child outer) :
    let c := (childDraft x scope kind depth child).chunk
    c.startLine = child.start + 1 ∧ c.endLine = child.stop + 1 ∧ c.depth = depth ∧
      ((∃ name, c.name = some name ∧ c.fullPath = scope ++ "." ++ name) ∨
        c.fullPath = scope ++ "@" ++ toString c.startLine) := by
  cases child with
  | definition s inside start stop =>
    obtain ⟨c, hdraft, -, hstart, hend, hdepth, hname, hpath, -⟩ := definitionDraft_eq x s start stop
      (scope ++ "." ++ s.definition.name) (kindOf s.definition.role (some kind)) depth
    simp only [childDraft, hdraft, Draft.chunk]
    exact ⟨hstart, hend, hdepth, .inl ⟨_, hname, hpath⟩⟩
  | window statements start stop => exact ⟨rfl, rfl, rfl, .inr rfl⟩

theorem nested_windowDraft (hlines : x.lines ≠ []) (scope : String) (depth : Nat)
    (statements : List Node) {first last : Nat} (hle : first ≤ last) :
    (Draft.mk (windowChunk x scope depth statements first last) []).Nested x.lines := by
  refine .mk (mark_not_mem_idOf _ _ _ _) (Nat.succ_le_succ hle) (fun _ => ?_) (by simp)
    List.Pairwise.nil (by simp)
  exact hasText_of_content hlines rfl rfl rfl

/-- The draft of a definition that is found in the tree is nested, if its rows are among those it is
given. -/
theorem nested_definitionDraft (hlines : x.lines ≠ []) (hrules : x.rules.BodyInside) (site : Site)
    (hsite : site.IsFound x.rules x.source) {first last : Nat}
    (hfirst : first ≤ site.outer.start.row) (hlast : site.outer.lastRow ≤ last)
    (fullPath : String) (kind : ChunkKind) (depth : Nat) :
    (definitionDraft x site first last fullPath kind depth).Nested x.lines := by
  have hplanned := planned_plannedFor hrules hsite first last
  obtain ⟨c, hdraft, hplain, hstart, hend, hdepth, -, hpath, hcontent⟩ :=
    definitionDraft_eq x site first last fullPath kind depth
  rw [hdraft]
  constructor
  · exact hplain
  · have hrange := (hsite.wellFormed.rows hsite.named).1
    omega
  · intro hnone
    exact hasText_of_content hlines hstart hend (hcontent (List.map_eq_nil_iff.mp hnone))
  · intro d hd
    obtain ⟨child, hchild, rfl⟩ := List.mem_map.mp hd
    have hfits := hplanned.fits child hchild
    have hbegins := hfits.first_le
    have hends := hfits.le_last
    obtain ⟨hs, he, hd, hunder⟩ := chunk_childDraft (x := x) fullPath kind (depth + 1) child
    exact ⟨by omega, hpath ▸ hunder, by omega, by omega⟩
  · refine List.pairwise_map.mpr (hplanned.apart.imp fun {a b} hab => ?_)
    have hbefore := (chunk_childDraft (x := x) fullPath kind (depth + 1) a).2.1
    have hafter := (chunk_childDraft (x := x) fullPath kind (depth + 1) b).1
    omega
  · intro d hd
    obtain ⟨child, hchild, rfl⟩ := List.mem_map.mp hd
    have hfits := hplanned.fits child hchild
    cases child with
    | definition s inside start stop =>
      obtain ⟨hs, hbegin, hend⟩ := hfits.covers s inside start stop rfl
      exact nested_definitionDraft hlines hrules s hs hbegin hend _ _ _
    | window statements start stop =>
      exact nested_windowDraft hlines _ _ statements hfits.start_le
termination_by sizeOf site.outer

/-! ## Segments -/

theorem chunk_segmentDraft (s : Segment) :
    let c := (segmentDraft x s).chunk
    c.startLine = s.start + 1 ∧ c.endLine = s.stop + 1 ∧ c.depth = 0 := by
  rw [segmentDraft]
  cases s.piece with
  | definition site =>
    obtain ⟨c, hdraft, -, hstart, hend, hdepth, -⟩ := definitionDraft_eq x site s.start s.stop
      (topPath x.file.path site.definition.receiver site.definition.name)
      (kindOf site.definition.role none) 0
    simp only [hdraft, Draft.chunk]
    exact ⟨hstart, hend, hdepth⟩
  | statements => exact ⟨rfl, rfl, rfl⟩

theorem nested_segmentDraft (hlines : x.lines ≠ []) (hrules : x.rules.BodyInside) {s : Segment}
    (hle : s.start ≤ s.stop) (hcovers : s.Covers (Site.IsFound x.rules x.source)) :
    (segmentDraft x s).Nested x.lines := by
  rw [segmentDraft]
  cases hpiece : s.piece with
  | definition site =>
    obtain ⟨hsite, hfirst, hlast⟩ := hcovers site hpiece
    exact nested_definitionDraft hlines hrules site hsite hfirst hlast _ _ _
  | statements =>
    refine .mk (mark_not_mem_idOf _ _ _ _) (Nat.succ_le_succ hle) (fun _ => ?_) (by simp)
      List.Pairwise.nil (by simp)
    exact hasText_of_content hlines rfl rfl rfl

end Chunk

end SourceIndex
