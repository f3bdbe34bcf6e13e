import Mathlib
import SourceIndex.Proofs.Chunk.Drafts

/-! # The chunks of a file

The chunks at the top of a file tile its lines (`Chunk.tiles_ofFile`), and all its chunks are a
forest in pre-order in which every chunk lies on the lines of its parent (`Chunk.forest_ofFile`).
Both hold for every tree that is well-formed over the text of the file, and for all limits.
-/

set_option autoImplicit false

namespace SourceIndex

namespace Chunk

/-- Chunks in pre-order: ids tell them apart, chunks at the top have no parent, the others lie right
below theirs, and chunks with the same parent are on different lines. -/
structure IsForest (cs : List Chunk) : Prop where
  distinct : (cs.map Chunk.id).Nodup
  top_iff : ∀ c ∈ cs, c.parentId = none ↔ c.depth = 0
  parent : ∀ before c after, cs = before ++ c :: after → c.parentId ≠ none → c.HasParent before
  start_le : ∀ c ∈ cs, c.startLine ≤ c.endLine
  apart : cs.Pairwise fun c e => c.parentId = e.parentId → c.endLine < e.startLine

/-- What the chunks of a tree are made from. -/
def contextOf (rules : Rules) (file : SourceFile) (limits : ChunkLimits) (root : Node) : Context where
  file
  rules
  limits
  lines := Text.lines file.content
  facts := FileFacts.ofTree rules file.content root

theorem ofTree_eq (rules : Rules) (file : SourceFile) (limits : ChunkLimits) (root : Node) :
    ofTree rules file limits root =
      (Draft.listAll none [] (drafts (contextOf rules file limits root) root)).1 := rfl

variable {rules : Rules} {file : SourceFile} {root : Node}

/-- The segments of a well-formed tree tile the rows of the text, each with the rows of its
definition. -/
theorem tiles_layout (limits : ChunkLimits) (hroot : root.WellFormed file.content) :
    let segments := Segment.layout rules file.content limits.maxLines limits.minLines
      ((Text.lines file.content).length - 1) root
    Tiles 0 ((Text.lines file.content).length - 1 + 1) (segments.map Segment.range) ∧
      ∀ s ∈ segments, s.Covers (Site.IsFound rules file.content) := by
  have hchild : ∀ n ∈ root.namedChildren, n.WellFormed file.content ∧ n.named = true := by
    intro n hn
    exact ⟨hroot.of_mem (Node.child_mem_nodes (Node.mem_of_mem_named hn)),
      Node.named_of_mem_named hn⟩
  have hrows : ∀ n ∈ root.namedChildren,
      n.start.row ≤ n.lastRow ∧ n.lastRow ≤ (Text.lines file.content).length - 1 := by
    intro n hn
    have hrows := (hchild n hn).1.rows (hchild n hn).2
    omega
  have hfound : ∀ n ∈ root.namedChildren, ∀ before d, rules.definition? file.content n = some d →
      Site.IsFound rules file.content ⟨n, before, d⟩ :=
    fun n hn before d hd => ⟨hd, (hchild n hn).1, (hchild n hn).2⟩
  exact Segment.layout_tiles limits.maxLines limits.minLines hrows hfound

/-- The drafts of a well-formed tree are nested, and those at the top tile the lines. -/
theorem nested_drafts (limits : ChunkLimits) (hlines : Text.lines file.content ≠ [])
    (hrules : rules.BodyInside) (hroot : root.WellFormed file.content) :
    let ds := drafts (contextOf rules file limits root) root
    (∀ d ∈ ds, d.Nested (Text.lines file.content) ∧ d.chunk.depth = 0) ∧
      Tiles 1 ((Text.lines file.content).length + 1) (ds.map fun d => d.chunk.lineRange) := by
  have hpos := List.length_pos_iff.mpr hlines
  obtain ⟨htiles, hcovers⟩ := @tiles_layout rules file root limits hroot
  intro ds
  constructor
  · intro d hd
    obtain ⟨s, hs, rfl⟩ := List.mem_map.mp hd
    have hle := (htiles.le_of_mem (List.mem_map_of_mem hs)).2
    exact ⟨nested_segmentDraft (x := contextOf rules file limits root) hlines hrules hle (hcovers s hs),
      (chunk_segmentDraft s).2.2⟩
  · have hshift := htiles.succ
    rw [Nat.sub_add_cancel hpos, List.map_map] at hshift
    have hds : ds = (Segment.layout rules file.content limits.maxLines limits.minLines
        ((Text.lines file.content).length - 1) root).map
        (segmentDraft (contextOf rules file limits root)) := rfl
    rw [hds, List.map_map]
    refine (List.map_congr_left fun s _ => ?_) ▸ hshift
    obtain ⟨hstart, hend, -⟩ := chunk_segmentDraft (x := contextOf rules file limits root) s
    exact (Prod.ext hstart hend).symm

/-- The chunks of a well-formed tree list its drafts. -/
theorem listed_ofTree (limits : ChunkLimits) (hlines : Text.lines file.content ≠ [])
    (hrules : rules.BodyInside) (hroot : root.WellFormed file.content) :
    ∃ seen, Draft.Listed (Text.lines file.content) none 0 []
      (drafts (contextOf rules file limits root) root) (ofTree rules file limits root) seen := by
  obtain ⟨hnested, htiles⟩ := nested_drafts limits hlines hrules hroot
  refine ⟨_, Draft.listed_listAll (fun d hd => (hnested d hd).1) (fun d hd => (hnested d hd).2) ?_
    [] fun id hid => by cases hid⟩
  exact List.pairwise_map.mp htiles.pairwise

/-- The chunks at the top of a well-formed tree tile the lines. -/
theorem tiles_ofTree (limits : ChunkLimits) (hlines : Text.lines file.content ≠ [])
    (hrules : rules.BodyInside) (hroot : root.WellFormed file.content) :
    Tiles 1 ((Text.lines file.content).length + 1)
      (((ofTree rules file limits root).filter (·.depth = 0)).map lineRange) := by
  obtain ⟨seen, hlisted⟩ := listed_ofTree limits hlines hrules hroot
  rw [hlisted.tops]
  exact (nested_drafts limits hlines hrules hroot).2

/-- The chunks of a well-formed tree are a forest. -/
theorem isForest_ofTree (limits : ChunkLimits) (hlines : Text.lines file.content ≠ [])
    (hrules : rules.BodyInside) (hroot : root.WellFormed file.content) :
    IsForest (ofTree rules file limits root) := by
  obtain ⟨seen, hlisted⟩ := listed_ofTree limits hlines hrules hroot
  have hnested := (nested_drafts limits hlines hrules hroot).1
  refine ⟨hlisted.distinct, fun c hc => ?_, fun before c after hsplit hsome => ?_,
    hlisted.start_le, hlisted.apart⟩
  · obtain ⟨before, after, hsplit⟩ := List.append_of_mem hc
    rcases hlisted.placed before c after hsplit with
      ⟨d, hd, id, rfl⟩ | ⟨earlier, p, between, -, hid, hunder, -⟩
    · exact iff_of_true rfl (hnested d hd).2
    · have hdepth := hunder.depth_eq
      exact iff_of_false (by rw [hid]; simp) (by omega)
  · rcases hlisted.placed before c after hsplit with ⟨d, hd, id, rfl⟩ | hhas
    · exact absurd rfl hsome
    · exact hhas

theorem chunks_ofFile {parse : Parse} (hblank : Text.isBlankText file.content = false)
    (hrules : Rules.ofLanguage? file.language = some rules)
    (hparse : parse file.language file.content = some root) (limits : ChunkLimits) :
    (ofFile parse file limits).chunks = ofTree rules file limits root := by
  rw [ofFile, hblank, hrules]
  simp only [Bool.false_eq_true, if_false, hparse]

/-- The chunks at the top of a file begin at its first line, each one after the last line of the one
before it, and end at its last line. A chunk without children has the text of its lines. -/
theorem tiles_ofFile (parse : Parse) (file : SourceFile) (limits : ChunkLimits) {rules : Rules}
    {root : Node} (hblank : Text.isBlankText file.content = false)
    (hrules : Rules.ofLanguage? file.language = some rules)
    (hparse : parse file.language file.content = some root)
    (hroot : root.WellFormed file.content) :
    Tiles 1 ((Text.lines file.content).length + 1)
        (((ofFile parse file limits).chunks.filter (·.depth = 0)).map lineRange) ∧
      ∀ c ∈ (ofFile parse file limits).chunks,
        (∀ e ∈ (ofFile parse file limits).chunks, e.parentId ≠ some c.id) →
          c.HasText (Text.lines file.content) := by
  have hlines := Text.lines_ne_nil hblank
  have hbodies := Rules.bodyInside_ofLanguage hrules
  obtain ⟨seen, hlisted⟩ := listed_ofTree limits hlines hbodies hroot
  rw [chunks_ofFile hblank hrules hparse]
  exact ⟨tiles_ofTree limits hlines hbodies hroot, hlisted.whole⟩

/-- The chunks of a file are a forest in pre-order. -/
theorem forest_ofFile (parse : Parse) (file : SourceFile) (limits : ChunkLimits) {rules : Rules}
    {root : Node} (hrules : Rules.ofLanguage? file.language = some rules)
    (hparse : parse file.language file.content = some root)
    (hroot : root.WellFormed file.content) :
    IsForest (ofFile parse file limits).chunks := by
  cases hblank : Text.isBlankText file.content with
  | true =>
    rw [ofFile, hblank]
    exact ⟨List.nodup_nil, by simp, by simp, by simp, List.Pairwise.nil⟩
  | false =>
    rw [chunks_ofFile hblank hrules hparse]
    exact isForest_ofTree limits (Text.lines_ne_nil hblank) (Rules.bodyInside_ofLanguage hrules) hroot

/-! ## A small header -/

/-- A header with a template in a namespace. -/
def smallHeader : SourceFile := .ofText ⟨"point.h"⟩ .cpp
  "#include <vector>\nnamespace geo \x7b\ntemplate <typename T> class Point \x7b\x7d;\n\x7d\n"

/-- Its tree. The include directive ends at the beginning of the second row. -/
def smallTree : Node :=
  (Node.ofRows? smallHeader.content
    [⟨0, "translation_unit", true, "", 0, 74⟩, ⟨1, "preproc_include", true, "", 0, 18⟩,
      ⟨1, "namespace_definition", true, "", 18, 73⟩,
      ⟨2, "namespace_identifier", true, "name", 28, 31⟩,
      ⟨2, "declaration_list", true, "body", 32, 73⟩,
      ⟨3, "template_declaration", true, "", 34, 71⟩, ⟨4, "class_specifier", true, "", 56, 70⟩,
      ⟨5, "type_identifier", true, "name", 62, 67⟩,
      ⟨5, "field_declaration_list", true, "body", 68, 70⟩]).getD default

theorem wellFormed_smallTree : smallTree.WellFormed smallHeader.content := by decide +kernel

/-- The small header, with definitions of more than two lines split. -/
theorem tiles_smallHeader : ∃ cs, (ofFile (fun _ _ => some smallTree) smallHeader ⟨2, 1, 5, 0⟩).chunks = cs ∧
    cs.map lineRange = [(1, 1), (2, 4), (3, 3)] ∧
    Tiles 1 5 ((cs.filter (·.depth = 0)).map lineRange) ∧
      ∀ c ∈ cs, (∀ e ∈ cs, e.parentId ≠ some c.id) → c.HasText (Text.lines smallHeader.content) := by
  refine ⟨_, rfl, by decide +kernel, ?_⟩
  exact tiles_ofFile (fun _ _ => some smallTree) smallHeader ⟨2, 1, 5, 0⟩ (by decide +kernel) rfl rfl
    wellFormed_smallTree

theorem forest_smallHeader : ∃ cs, (ofFile (fun _ _ => some smallTree) smallHeader ⟨2, 1, 5, 0⟩).chunks = cs ∧
    cs.map (fun c => (c.depth, c.fullPath)) =
      [(0, "point@1"), (0, "point.geo"), (1, "point.geo.Point")] ∧ IsForest cs := by
  refine ⟨_, rfl, by decide +kernel, ?_⟩
  exact forest_ofFile (fun _ _ => some smallTree) smallHeader ⟨2, 1, 5, 0⟩ rfl rfl
    wellFormed_smallTree

end Chunk

end SourceIndex
