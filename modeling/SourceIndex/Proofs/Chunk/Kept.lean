import Mathlib
import SourceIndex.Proofs.Chunk.Gaps

/-! # Text that chunks keep

The content of a chunk has the lines of its range that lie in none of its children's ranges, in
order, and as far as no child begins it is just what the file has there (`Chunk.Keeps`). Drafts keep
their lines (`Chunk.written_definitionDraft`), listing the drafts changes no text and gives every
child its place below the parent (`Draft.keeps_listAll`), and a window keeps all its lines. So all
chunks of a file keep their lines (`Chunk.keeps_ofFile`).
-/

set_option autoImplicit false

namespace SourceIndex

namespace Chunk

/-! ## Chunks that keep their lines -/

/-- The content of a chunk is made of the lines `out`. They have the lines of its range that lie in
none of the ranges `inner`, in order, and before the first of these ranges nothing else. -/
structure Shows (lines : List String) (inner : List (Nat × Nat)) (c : Chunk) (out : List String) :
    Prop where
  pos : 0 < c.startLine
  content_eq : c.content = Text.unlines out
  isLine : ∀ l ∈ out, Text.IsLine l
  kept : ((freeLines c.startLine c.endLine inner).map (lineAt lines)).Sublist out
  head : ∀ i < out.length, (∀ r ∈ inner, c.startLine + i < r.1) →
    out[i]? = lines[c.startLine - 1 + i]?

/-- A chunk keeps the lines of its range that lie in none of the ranges `inner`. -/
def Keeps (lines : List String) (inner : List (Nat × Nat)) (c : Chunk) : Prop :=
  ∃ out, c.Shows lines inner out

theorem Keeps.mono {lines : List String} {inner inner' : List (Nat × Nat)} {c : Chunk}
    (h : c.Keeps lines inner) (hsub : ∀ r ∈ inner, r ∈ inner') : c.Keeps lines inner' := by
  obtain ⟨out, hout⟩ := h
  refine ⟨out, hout.pos, hout.content_eq, hout.isLine, ?_, fun i hi hbefore => ?_⟩
  · exact ((freeLines_sublist hsub c.startLine c.endLine).map _).trans hout.kept
  · exact hout.head i hi fun r hr => hbefore r (hsub r hr)

/-- What a chunk is called does not matter. -/
theorem Keeps.relabel {lines : List String} {inner : List (Nat × Nat)} {c : Chunk}
    (h : c.Keeps lines inner) (id : String) (parentId : Option String) :
    Keeps lines inner { c with id, parentId } := by
  obtain ⟨out, hpos, hcontent, hisLine, hkept, hhead⟩ := h
  exact ⟨out, hpos, hcontent, hisLine, hkept, hhead⟩

/-- A chunk with the text of its lines keeps all of them. -/
theorem HasText.keeps {lines : List String} {c : Chunk} (h : c.HasText lines)
    (hlines : ∀ l ∈ lines, Text.IsLine l) (hpos : 0 < c.startLine) (hend : c.endLine ≤ lines.length) :
    c.Keeps lines [] := by
  have hstart : c.startLine - 1 + 1 = c.startLine := by omega
  refine ⟨_, hpos, h, fun l hl => hlines l (List.mem_of_mem_drop (List.mem_of_mem_take hl)), ?_,
    fun i hi _ => ?_⟩
  · rw [freeLines_nil]
    rcases Nat.le_total c.startLine (c.endLine + 1) with hle | hle
    · have hmap := @map_lineAt_range' lines (c.startLine - 1) (c.endLine + 1 - c.startLine)
        (by omega)
      rw [hstart] at hmap
      rw [hmap]
    · rw [Nat.sub_eq_zero_of_le hle]
      exact List.nil_sublist _
  · rw [List.length_take] at hi
    rw [List.getElem?_take_of_lt (by omega), List.getElem?_drop]

/-- The chunks whose parent is a given one. -/
def childrenIn (cs : List Chunk) (c : Chunk) : List Chunk :=
  cs.filter fun e => e.parentId = some c.id

theorem mem_childrenIn {cs : List Chunk} {c e : Chunk} :
    e ∈ childrenIn cs c ↔ e ∈ cs ∧ e.parentId = some c.id := by
  rw [childrenIn, List.mem_filter, decide_eq_true_eq]

/-- A chunk keeps the lines that lie in none of its children among `cs`. -/
def KeepsIn (lines : List String) (cs : List Chunk) (c : Chunk) : Prop :=
  c.Keeps lines ((childrenIn cs c).map lineRange)

theorem KeepsIn.mono {lines : List String} {cs cs' : List Chunk} {c : Chunk}
    (h : c.KeepsIn lines cs) (hsub : ∀ e ∈ cs, e ∈ cs') : c.KeepsIn lines cs' := by
  refine Keeps.mono h fun r hr => ?_
  obtain ⟨e, he, rfl⟩ := List.mem_map.mp hr
  obtain ⟨hmem, hid⟩ := mem_childrenIn.mp he
  exact List.mem_map_of_mem (mem_childrenIn.mpr ⟨hsub e hmem, hid⟩)

end Chunk

/-! ## Listing -/

namespace Draft

/-- A draft in which every chunk keeps the lines that lie in none of the drafts below. -/
inductive Written (lines : List String) : Draft → Prop
  | mk {c : Chunk} {ds : List Draft} (keeps : c.Keeps lines (ds.map fun d => d.chunk.lineRange))
    (below : ∀ d ∈ ds, Written lines d) : Written lines (.mk c ds)

variable {lines : List String}

/-- The chunk of every draft is listed below the parent. -/
theorem exists_listed_of_mem {ds : List Draft} {d : Draft} (hd : d ∈ ds) (parent : Option String)
    (seen : List String) : ∃ e ∈ (listAll parent seen ds).1, e.parentId = parent ∧
      e.lineRange = d.chunk.lineRange := by
  induction ds generalizing seen with
  | nil => cases hd
  | cons first rest ih =>
    rw [listAll]
    rcases List.mem_cons.mp hd with rfl | hd
    · obtain ⟨c, below⟩ := d
      rw [list]
      exact ⟨_, List.mem_append_left _ List.mem_cons_self, rfl, rfl⟩
    · obtain ⟨e, he, hparent, hrange⟩ := ih hd (list parent seen first).2
      exact ⟨e, List.mem_append_right _ he, hparent, hrange⟩

/-- Where the chunks of each draft keep their lines, so do those of all of them. -/
theorem keeps_of_list {ds : List Draft} (parent : Option String)
    (hlist : ∀ d ∈ ds, ∀ seen, ∀ c ∈ (list parent seen d).1, c.KeepsIn lines (list parent seen d).1)
    (seen : List String) :
    ∀ c ∈ (listAll parent seen ds).1, c.KeepsIn lines (listAll parent seen ds).1 := by
  induction ds generalizing seen with
  | nil =>
    intro c hc
    cases hc
  | cons d ds ih =>
    intro c hc
    rw [listAll] at hc ⊢
    rcases List.mem_append.mp hc with hc | hc
    · exact (hlist d List.mem_cons_self seen c hc).mono fun e he => List.mem_append_left _ he
    · have hrest := ih (fun e he => hlist e (List.mem_cons_of_mem d he)) _ c hc
      exact hrest.mono fun e he => List.mem_append_right _ he

theorem keeps_list {d : Draft} (h : d.Written lines) (parent : Option String) (seen : List String) :
    ∀ c ∈ (list parent seen d).1, c.KeepsIn lines (list parent seen d).1 := by
  induction h generalizing parent seen with
  | @mk c ds hkeeps hbelow ih =>
    intro e he
    rw [list] at he ⊢
    rcases List.mem_cons.mp he with rfl | he
    · -- the drafts below are listed as its children
      refine (hkeeps.relabel (freshId seen c.id) parent).mono fun r hr => ?_
      obtain ⟨d, hd, rfl⟩ := List.mem_map.mp hr
      obtain ⟨e, he, hparent, hrange⟩ := exists_listed_of_mem hd (some (freshId seen c.id))
        (c.id :: seen)
      rw [← hrange]
      exact List.mem_map_of_mem
        (Chunk.mem_childrenIn.mpr ⟨List.mem_cons_of_mem _ he, hparent⟩)
    · have hlisted := keeps_of_list (some (freshId seen c.id)) (fun d hd seen => ih d hd _ seen)
        (c.id :: seen) e he
      exact hlisted.mono fun f hf => List.mem_cons_of_mem _ hf

/-- Listing drafts keeps the text of every chunk. -/
theorem keeps_listAll {ds : List Draft} (h : ∀ d ∈ ds, d.Written lines) (parent : Option String)
    (seen : List String) :
    ∀ c ∈ (listAll parent seen ds).1, c.KeepsIn lines (listAll parent seen ds).1 :=
  keeps_of_list parent (fun d hd seen => keeps_list (h d hd) parent seen) seen

end Draft

/-! ## Drafts -/

namespace Chunk

variable {x : Context}

theorem written_of_content (hlines : x.lines ≠ []) (hisLine : ∀ l ∈ x.lines, Text.IsLine l)
    {first last : Nat} (hend : last < x.lines.length) {c : Chunk} (hstart : c.startLine = first + 1)
    (hstop : c.endLine = last + 1) (hcontent : c.content = x.rowsText first last) :
    (Draft.mk c []).Written x.lines := by
  refine .mk ?_ (by simp)
  exact (hasText_of_content hlines hstart hstop hcontent).keeps hisLine (by omega) (by omega)

/-- A definition keeps the lines that lie in none of its planned children. -/
theorem keeps_definitionChunk (hlines : x.lines ≠ []) (hisLine : ∀ l ∈ x.lines, Text.IsLine l)
    {site : Site} {first last : Nat}
    (hordered : Child.Ordered last first (plannedFor x site first last))
    (hend : last < x.lines.length) (fullPath : String) (kind : ChunkKind) (depth : Nat) :
    (definitionChunk x site first last fullPath kind depth
      (definitionContent x site first last)).Keeps x.lines
        ((plannedFor x site first last).map Child.lineRange) := by
  by_cases hnone : plannedFor x site first last = []
  · -- nothing is left out
    rw [hnone]
    refine (hasText_of_content hlines rfl rfl ?_).keeps hisLine (Nat.succ_pos first) hend
    show definitionContent x site first last = _
    rw [definitionContent, hnone]
    rfl
  · refine ⟨_, Nat.succ_pos first, ?_, Child.isLine_of_mem_elidedFrom hisLine last first _,
      Child.free_sublist_elidedFrom hordered hend, fun i hi hbefore => ?_⟩
    · show definitionContent x site first last = _
      rw [definitionContent, if_neg (by simpa using hnone)]
      rfl
    · refine Child.getElem?_elidedFrom hordered hend hi fun c hc => ?_
      have hlt : first + 1 + i < c.start + 1 := hbefore c.lineRange (List.mem_map_of_mem hc)
      omega

/-- The draft of a definition keeps its lines, and so do those below. -/
theorem written_definitionDraft (hlines : x.lines ≠ []) (hisLine : ∀ l ∈ x.lines, Text.IsLine l)
    (hrules : x.rules.BodyInside) (site : Site) (hsite : site.IsFound x.rules x.source)
    {first last : Nat} (hfirst : first ≤ site.outer.start.row) (hlast : site.outer.lastRow ≤ last)
    (hend : last < x.lines.length) (fullPath : String) (kind : ChunkKind) (depth : Nat) :
    (definitionDraft x site first last fullPath kind depth).Written x.lines := by
  have hplanned := planned_plannedFor hrules hsite first last
  have hordered := hplanned.ordered hfirst hlast
  have hranges : ((plannedFor x site first last).map (childDraft x fullPath kind (depth + 1))).map
      (fun d => d.chunk.lineRange) = (plannedFor x site first last).map Child.lineRange := by
    rw [List.map_map]
    refine List.map_congr_left fun c _ => ?_
    obtain ⟨hstart, hstop, -⟩ := chunk_childDraft (x := x) fullPath kind (depth + 1) c
    exact Prod.ext hstart hstop
  rw [definitionDraft_mk]
  constructor
  · rw [hranges]
    exact keeps_definitionChunk hlines hisLine hordered hend fullPath kind depth
  · intro d hd
    obtain ⟨child, hchild, rfl⟩ := List.mem_map.mp hd
    have hfits := hplanned.fits child hchild
    have hstop : child.stop < x.lines.length := hfits.le_last.trans_lt (hlast.trans_lt hend)
    cases child with
    | definition s inside start stop =>
      obtain ⟨hs, hbegin, hover⟩ := hfits.covers s inside start stop rfl
      exact written_definitionDraft hlines hisLine hrules s hs hbegin hover hstop _ _ _
    | window statements start stop => exact written_of_content hlines hisLine hstop rfl rfl rfl
termination_by sizeOf site.outer

theorem written_segmentDraft (hlines : x.lines ≠ []) (hisLine : ∀ l ∈ x.lines, Text.IsLine l)
    (hrules : x.rules.BodyInside) {s : Segment} (hend : s.stop < x.lines.length)
    (hcovers : s.Covers (Site.IsFound x.rules x.source)) : (segmentDraft x s).Written x.lines := by
  rw [segmentDraft]
  cases hpiece : s.piece with
  | definition site =>
    obtain ⟨hsite, hfirst, hlast⟩ := hcovers site hpiece
    exact written_definitionDraft hlines hisLine hrules site hsite hfirst hlast hend _ _ _
  | statements => exact written_of_content hlines hisLine hend rfl rfl rfl

/-! ## Files -/

/-- The chunks of a well-formed tree keep the lines that lie in none of their children. -/
theorem keeps_ofTree {rules : Rules} {file : SourceFile} (limits : ChunkLimits) {root : Node}
    (hlines : Text.lines file.content ≠ []) (hrules : rules.BodyInside)
    (hroot : root.WellFormed file.content) :
    ∀ c ∈ ofTree rules file limits root,
      c.KeepsIn (Text.lines file.content) (ofTree rules file limits root) := by
  have hpos := List.length_pos_iff.mpr hlines
  obtain ⟨htiles, hcovers⟩ := @tiles_layout rules file root limits hroot
  rw [ofTree_eq]
  refine Draft.keeps_listAll (fun d hd => ?_) none []
  obtain ⟨s, hs, rfl⟩ := List.mem_map.mp hd
  have hstop := htiles.lt_of_mem (List.mem_map_of_mem (f := Segment.range) hs)
  rw [Nat.sub_add_cancel hpos] at hstop
  exact written_segmentDraft (x := contextOf rules file limits root) hlines
    (fun l hl => Text.isLine_of_mem_lines hl) hrules hstop (hcovers s hs)

/-- A window of lines is a slice of them. -/
theorem eq_of_mem_windowsFrom {limits : ChunkLimits} {start : Nat} {ls : List String}
    {w : Nat × List String} (h : w ∈ windowsFrom limits start ls) :
    start ≤ w.1 ∧ w.2 = (ls.drop (w.1 - start)).take limits.window := by
  rw [windowsFrom_eq] at h
  obtain ⟨i, -, rfl⟩ := List.mem_map.mp h
  exact ⟨Nat.le_add_right _ _, by rw [Nat.add_sub_cancel_left]⟩

/-- The line windows of a file keep all their lines. -/
theorem keeps_windows (file : SourceFile) (limits : ChunkLimits) :
    ∀ c ∈ windows file limits, c.Keeps (Text.lines file.content) [] := by
  intro c hc
  obtain ⟨⟨start, ls⟩, hw, hc⟩ := List.mem_filterMap.mp hc
  obtain ⟨-, hslice⟩ := eq_of_mem_windowsFrom hw
  simp only [Nat.sub_zero] at hslice
  simp only [ofWindow?, Option.ite_none_left_eq_some] at hc
  obtain ⟨hblank, hc⟩ := hc
  obtain rfl := Option.some.inj hc
  -- a window that is not blank has a line of the file
  have hne : ls ≠ [] := by
    rintro rfl
    exact hblank (by decide)
  have hlength := congrArg List.length hslice
  rw [List.length_take, List.length_drop] at hlength
  have hpos := List.length_pos_iff.mpr hne
  have hprefix : ls = ((Text.lines file.content).drop start).take ls.length :=
    List.prefix_iff_eq_take.mp (hslice ▸ List.take_prefix _ _)
  refine HasText.keeps ?_ (fun l hl => Text.isLine_of_mem_lines hl) (Nat.succ_pos start) ?_
  · have hcount : start + ls.length + 1 - (start + 1) = ls.length := by omega
    show Text.unlines ls = Text.unlines (((Text.lines file.content).drop (start + 1 - 1)).take
      (start + ls.length + 1 - (start + 1)))
    rw [hcount, Nat.add_sub_cancel, ← hprefix]
  · show start + ls.length ≤ (Text.lines file.content).length
    omega

/-- Every chunk of a file keeps the lines that lie in none of its children. -/
theorem keeps_ofFile {parse : Parse} {file : SourceFile} {limits : ChunkLimits}
    (hparse : ∀ root, parse file.language file.content = some root →
      root.WellFormed file.content) :
    ∀ c ∈ (ofFile parse file limits).chunks,
      c.KeepsIn (Text.lines file.content) (ofFile parse file limits).chunks := by
  have hwindows : ∀ c ∈ windows file limits,
      c.KeepsIn (Text.lines file.content) (windows file limits) := fun c hc =>
    (keeps_windows file limits c hc).mono fun r hr => by cases hr
  rw [ofFile]
  split
  · intro c hc
    cases hc
  · rename_i hblank
    split
    · exact hwindows
    · rename_i rules hrules
      split
      · exact hwindows
      · rename_i root hroot
        exact keeps_ofTree limits (Text.lines_ne_nil (by simpa using hblank))
          (Rules.bodyInside_ofLanguage hrules) (hparse root hroot)

end Chunk

end SourceIndex
