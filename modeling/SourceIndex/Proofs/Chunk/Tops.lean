import Mathlib
import SourceIndex.Proofs.Chunk.Parents
import SourceIndex.Proofs.Chunk.Sites
import SourceIndex.Proofs.Syntax.Found

/-! # The chunks at the top of a file

The chunks at the top of a file that are no groups of statements carry the definitions that begin on
a row of their own, in order (`Chunk.definitions_ofFile`). A group of statements has as many lines as
asked for, or it is the whole file.

Of the tree only the rows of the nodes right below the root matter (`Node.TopRows`).
-/

set_option autoImplicit false

namespace SourceIndex

/-- The nodes right below the root lie on rows of the text. -/
def Node.TopRows (source : String) (root : Node) : Prop :=
  ∀ n ∈ root.namedChildren, n.start.row ≤ n.lastRow ∧ n.lastRow < (Text.lines source).length

theorem Node.WellFormed.topRows {source : String} {root : Node} (h : root.WellFormed source) :
    root.TopRows source := by
  intro n hn
  exact (h.of_mem (child_mem_nodes (mem_of_mem_named hn))).rows (named_of_mem_named hn)

theorem Node.TopRows.le {source : String} {root : Node} (h : root.TopRows source) :
    ∀ n ∈ root.namedChildren, n.start.row ≤ n.lastRow ∧ n.lastRow ≤ (Text.lines source).length - 1 := by
  intro n hn
  have hn' := h n hn
  omega

namespace Chunk

/-- The chunk holds the definition at a site: it has its name and its kind, and the rows of its node
are among the lines of the chunk. -/
structure Carries (site : Site) (c : Chunk) : Prop where
  name_eq : c.name = some site.definition.name
  kind_eq : c.kind = kindOf site.definition.role none
  start_le : c.startLine ≤ site.outer.start.row + 1
  le_end : site.outer.lastRow + 1 ≤ c.endLine

theorem kindOf_ne_module (role : Role) : kindOf role none ≠ .module := by
  cases role <;> simp [kindOf]

/-! ## Segments and their chunks -/

variable {x : Context}

theorem kind_segmentDraft (s : Segment) :
    (segmentDraft x s).chunk.kind = .module ↔ s.site? = none := by
  rw [segmentDraft, Segment.site?]
  cases s.piece with
  | definition site =>
    simp only [definitionDraft_mk, Draft.chunk, reduceCtorEq, iff_false]
    exact kindOf_ne_module site.definition.role
  | statements => exact iff_of_true rfl rfl

theorem carries_segmentDraft {s : Segment} {site : Site} (hsite : s.site? = some site)
    (hcovers : s.Covers fun _ => True) : (segmentDraft x s).chunk.Carries site := by
  have hpiece := Segment.piece_of_site? hsite
  obtain ⟨-, hfirst, hlast⟩ := hcovers site hpiece
  obtain ⟨hstart, hend, -⟩ := chunk_segmentDraft (x := x) s
  have hchunk : (segmentDraft x s).chunk.name = some site.definition.name ∧
      (segmentDraft x s).chunk.kind = kindOf site.definition.role none := by
    rw [segmentDraft, hpiece]
    simp only [definitionDraft_mk, Draft.chunk]
    exact ⟨rfl, rfl⟩
  exact ⟨hchunk.1, hchunk.2, by omega, by omega⟩

/-- Where chunks belong to segments in order, those that are no groups of statements belong to the
definitions in order. -/
theorem forall₂_sites {R : Segment → Chunk → Prop} {segments : List Segment} {cs : List Chunk}
    (h : List.Forall₂ R segments cs) (hkind : ∀ s c, R s c → (c.kind = .module ↔ s.site? = none)) :
    List.Forall₂ (fun site c => ∃ s ∈ segments, s.site? = some site ∧ R s c)
      (segments.filterMap Segment.site?) (cs.filter (·.kind ≠ .module)) := by
  induction h with
  | nil => exact .nil
  | @cons s c segments cs hsc hrest ih =>
    have ih' := ih.imp fun site e ⟨t, ht, hte⟩ =>
      (⟨t, List.mem_cons_of_mem s ht, hte⟩ : ∃ t ∈ s :: segments, t.site? = some site ∧ R t e)
    cases hsite : s.site? with
    | none =>
      have hmodule := (hkind s c hsc).mpr hsite
      rw [List.filterMap_cons_none hsite, List.filter_cons_of_neg (by simp [hmodule])]
      exact ih'
    | some site =>
      have hother : c.kind ≠ .module := fun hmodule => by simp [(hkind s c hsc).mp hmodule] at hsite
      rw [List.filterMap_cons_some hsite, List.filter_cons_of_pos (by simp [hother])]
      exact .cons ⟨s, List.mem_cons_self, hsite, hsc⟩ ih'

/-! ## Trees -/

variable {rules : Rules} {file : SourceFile} {root : Node}

/-- The segments of the tree of a file. -/
def layoutOf (rules : Rules) (file : SourceFile) (limits : ChunkLimits) (root : Node) :
    List Segment :=
  Segment.layout rules file.content limits.maxLines limits.minLines
    ((Text.lines file.content).length - 1) root

/-- The chunk at the top of the chunks of a tree stands for the segment. -/
def StandsForSegment (rules : Rules) (file : SourceFile) (limits : ChunkLimits) (root : Node)
    (s : Segment) (c : Chunk) : Prop :=
  StandsFor (ofTree rules file limits root) (segmentDraft (contextOf rules file limits root) s) c

theorem StandsForSegment.lineRange_eq {limits : ChunkLimits} {s : Segment} {c : Chunk}
    (h : StandsForSegment rules file limits root s c) : c.lineRange = (s.start + 1, s.stop + 1) := by
  obtain ⟨-, id, -, -, rfl, -⟩ := h
  obtain ⟨hstart, hend, -⟩ := chunk_segmentDraft (x := contextOf rules file limits root) s
  exact Prod.ext hstart hend

theorem StandsForSegment.kind_iff {limits : ChunkLimits} {s : Segment} {c : Chunk}
    (h : StandsForSegment rules file limits root s c) : c.kind = .module ↔ s.site? = none := by
  obtain ⟨-, id, -, -, rfl, -⟩ := h
  exact kind_segmentDraft s

theorem forall₂_segments (rules : Rules) (file : SourceFile) (limits : ChunkLimits) (root : Node) :
    List.Forall₂ (StandsForSegment rules file limits root) (layoutOf rules file limits root)
      ((ofTree rules file limits root).filter (·.depth = 0)) := by
  have htops : List.Forall₂ (StandsFor (ofTree rules file limits root))
      ((layoutOf rules file limits root).map (segmentDraft (contextOf rules file limits root)))
      ((ofTree rules file limits root).filter (·.depth = 0)) :=
    forall₂_tops_ofTree rules file limits root
  rw [List.forall₂_map_left_iff] at htops
  exact htops

/-- The segments of the tree tile the rows of the text, each with the rows of its definition. -/
theorem tiles_layoutOf (rules : Rules) (limits : ChunkLimits) (hrows : root.TopRows file.content) :
    Tiles 0 ((Text.lines file.content).length - 1 + 1)
        ((layoutOf rules file limits root).map Segment.range) ∧
      ∀ s ∈ layoutOf rules file limits root, s.Covers fun _ => True :=
  Segment.layout_tiles limits.maxLines limits.minLines hrows.le fun _ _ _ _ _ => trivial

/-- The chunks at the top are on different lines. -/
theorem apart_tops (rules : Rules) (limits : ChunkLimits) (hrows : root.TopRows file.content) :
    ((ofTree rules file limits root).filter (·.depth = 0)).Pairwise
      fun c e => c.endLine < e.startLine := by
  -- the lines of the chunks are the rows of the segments, counted from one
  have hsame : (layoutOf rules file limits root).map (fun s => (s.start + 1, s.stop + 1)) =
      ((ofTree rules file limits root).filter (·.depth = 0)).map lineRange := by
    rw [← List.forall₂_eq_eq_eq, List.forall₂_map_left_iff, List.forall₂_map_right_iff]
    exact (forall₂_segments rules file limits root).imp fun s c h => h.lineRange_eq.symm
  obtain ⟨htiles, -⟩ := tiles_layoutOf rules limits hrows
  have hshift := htiles.succ.pairwise
  rw [List.map_map] at hshift
  exact List.pairwise_map.mp (hsame ▸ hshift)

/-- Chunks on different lines do not both have a line. -/
theorem eq_of_apart {cs : List Chunk} (h : cs.Pairwise fun c e => c.endLine < e.startLine)
    {c e : Chunk} (hc : c ∈ cs) (he : e ∈ cs) {line : Nat} (hstart : c.startLine ≤ line)
    (hend : line ≤ c.endLine) (hstart' : e.startLine ≤ line) (hend' : line ≤ e.endLine) : c = e := by
  have hapart : cs.Pairwise fun c e => c.endLine < e.startLine ∨ e.endLine < c.startLine :=
    h.imp Or.inl
  have : Std.Symm fun c e : Chunk => c.endLine < e.startLine ∨ e.endLine < c.startLine :=
    ⟨fun _ _ h => h.symm⟩
  by_contra hne
  have hlines := hapart.forall hc he hne
  omega

/-- The definitions that begin on rows of their own and the chunks at the top that are no groups of
statements belong together in order. -/
theorem forall₂_topSites (limits : ChunkLimits) (hrules : rules.FindsNames)
    (hrows : root.TopRows file.content) :
    List.Forall₂ (fun site c => Carries site c ∧ ∃ s ∈ layoutOf rules file limits root,
        s.site? = some site ∧ StandsForSegment rules file limits root s c)
      (topSites rules file.content root)
      (((ofTree rules file limits root).filter (·.depth = 0)).filter (·.kind ≠ .module)) := by
  obtain ⟨-, hcovers⟩ := tiles_layoutOf rules limits hrows
  have hsites : (layoutOf rules file limits root).filterMap Segment.site? =
      topSites rules file.content root :=
    Segment.sites_layout limits.maxLines limits.minLines
      (fun n d hd => (hrules file.content n d hd).2) hrows.le
  rw [← hsites]
  refine (forall₂_sites (forall₂_segments rules file limits root) fun s c h => h.kind_iff).imp ?_
  rintro site c ⟨s, hs, hsite, hstands⟩
  refine ⟨?_, s, hs, hsite, hstands⟩
  obtain ⟨-, id, -, -, rfl, -⟩ := hstands
  obtain ⟨hname, hkind, hstart, hend⟩ :=
    carries_segmentDraft (x := contextOf rules file limits root) hsite (hcovers s hs)
  exact ⟨hname, hkind, hstart, hend⟩

/-- A group of statements at the top has as many lines as asked for, or it is alone there. -/
theorem lines_of_module (limits : ChunkLimits) (hrows : root.TopRows file.content) {c : Chunk}
    (hc : c ∈ (ofTree rules file limits root).filter (·.depth = 0)) (hkind : c.kind = .module) :
    limits.minLines ≤ c.endLine + 1 - c.startLine ∨
      (ofTree rules file limits root).filter (·.depth = 0) = [c] := by
  have hall := forall₂_segments rules file limits root
  have hlong : (∀ s ∈ layoutOf rules file limits root, s.site? = none → limits.minLines ≤ s.size) ∨
      ∃ s, layoutOf rules file limits root = [s] :=
    Segment.size_layout limits.maxLines limits.minLines hrows.le
  rcases hlong with hsize | ⟨s, hone⟩
  · obtain ⟨s, hs, hstands⟩ := exists_of_mem_right hall hc
    obtain ⟨htiles, -⟩ := tiles_layoutOf rules limits hrows
    have hle : s.start ≤ s.stop := (htiles.le_of_mem (List.mem_map_of_mem hs)).2
    have hleast := hsize s hs (hstands.kind_iff.mp hkind)
    obtain ⟨hstart, hend⟩ : c.startLine = s.start + 1 ∧ c.endLine = s.stop + 1 :=
      Prod.mk.inj hstands.lineRange_eq
    rw [Segment.size] at hleast
    left
    omega
  · -- one segment, so there is one chunk
    right
    rw [hone] at hall
    obtain ⟨e, es, -, hes, htops⟩ := List.forall₂_cons_left_iff.mp hall
    obtain rfl := List.forall₂_nil_left_iff.mp hes
    rw [htops] at hc ⊢
    rw [List.mem_singleton.mp hc]

/-- A blank text has no definitions. -/
theorem topSites_of_blank {source : String} (hrules : rules.FindsNames)
    (hblank : Text.isBlankText source = true) : topSites rules source root = [] := by
  refine List.filterMap_eq_nil_iff.mpr fun ⟨n, before⟩ _ => ?_
  cases hd : rules.definition? source n with
  | none => simp [topSite?, hd]
  | some d =>
    have hnot := (hrules source n d hd).1
    rw [hblank] at hnot
    cases hnot

/-! ## Files -/

/-- In a file with a tree, each definition at the top that begins on a row after those of all nodes
before it, comments and attributes not counted, is carried by a chunk at the top, and no other chunk
there has its rows. The chunks at the top that are no groups of statements carry these definitions in
order. A group of statements has as many lines as asked for, or it is alone at the top. -/
theorem definitions_ofFile (parse : Parse) (file : SourceFile) (limits : ChunkLimits) {rules : Rules}
    {root : Node} (hrules : Rules.ofLanguage? file.language = some rules)
    (hparse : parse file.language file.content = some root)
    (hrows : root.TopRows file.content) :
    let tops := (ofFile parse file limits).chunks.filter (·.depth = 0)
    (∀ site ∈ topSites rules file.content root, ∃ c ∈ tops, Carries site c ∧
      ∀ e ∈ tops, e.startLine ≤ site.outer.start.row + 1 → site.outer.lastRow + 1 ≤ e.endLine → e = c) ∧
    List.Forall₂ Carries (topSites rules file.content root) (tops.filter (·.kind ≠ .module)) ∧
    ∀ c ∈ tops, c.kind = .module →
      limits.minLines ≤ c.endLine + 1 - c.startLine ∨ tops = [c] := by
  have hfinds := Rules.findsNames_ofLanguage hrules
  cases hblank : Text.isBlankText file.content with
  | true =>
    -- a blank text has no definitions and no chunks
    rw [ofFile, hblank, topSites_of_blank hfinds hblank]
    exact ⟨by simp, .nil, by simp⟩
  | false =>
    rw [chunks_ofFile hblank hrules hparse]
    have hsites := forall₂_topSites limits hfinds hrows
    have hapart := apart_tops rules limits hrows
    refine ⟨fun site hsite => ?_, hsites.imp fun _ _ h => h.1, fun c hc => lines_of_module limits hrows hc⟩
    -- another chunk with the rows of the node would share a line with the one that carries it
    obtain ⟨c, hc, hcarries, -⟩ := exists_of_mem_left hsites hsite
    have hc := (List.mem_filter.mp hc).1
    refine ⟨c, hc, hcarries, fun e he hstart hend => ?_⟩
    have hnode := (hrows site.outer (mem_topSites hsite).1).1
    refine eq_of_apart hapart he hc hstart (by omega) hcarries.start_le ?_
    exact (Nat.succ_le_succ hnode).trans hcarries.le_end

/-- The small header, where the include directive is too short a group and joins the namespace. -/
theorem definitions_smallHeader :
    ∃ tops, (ofFile (fun _ _ => some smallTree) smallHeader ⟨10, 3, 5, 0⟩).chunks.filter (·.depth = 0) =
        tops ∧ tops.map lineRange = [(1, 4)] ∧
      (topSites CFamily.rules smallHeader.content smallTree).map (·.definition.name) = ["geo"] ∧
      List.Forall₂ Carries (topSites CFamily.rules smallHeader.content smallTree)
        (tops.filter (·.kind ≠ .module)) := by
  have hwell : smallTree.WellFormed smallHeader.content := by decide +kernel
  refine ⟨_, rfl, by decide +kernel, by decide +kernel, ?_⟩
  exact (definitions_ofFile (fun _ _ => some smallTree) smallHeader ⟨10, 3, 5, 0⟩ rfl rfl
    hwell.topRows).2.1

end Chunk

end SourceIndex
