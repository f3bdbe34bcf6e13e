import Mathlib
import SourceIndex.Proofs.Chunk.Kept

/-! # Lines of their own

The lines of a chunk that lie in none of its children are its own. In a forest whose tops tile the
lines of a file, every line is the own line of exactly one chunk (`Chunk.IsForest.perm_ownLines`): of
the deepest one that holds it. Every chunk has the text of its own lines, so cutting a file loses
none of its lines (`Chunk.ownLines_ofFile`). Only a blank file has lines and no chunks.
-/

set_option autoImplicit false

namespace SourceIndex

/-- A tiling covers everything between its ends. -/
theorem Tiles.exists_mem {a b n : Nat} {rs : List (Nat × Nat)} (h : Tiles a b rs) (ha : a ≤ n)
    (hb : n < b) : ∃ r ∈ rs, r.1 ≤ n ∧ n ≤ r.2 := by
  induction rs generalizing a with
  | nil =>
    have heq : a = b := h
    omega
  | cons r rs ih =>
    obtain ⟨hstart, -, hrest⟩ := h
    by_cases hn : n ≤ r.2
    · exact ⟨r, List.mem_cons_self, by omega, hn⟩
    · obtain ⟨q, hq, hrange⟩ := ih hrest (by omega)
      exact ⟨q, List.mem_cons_of_mem r hq, hrange⟩

namespace Chunk

/-! ## Holding and owning lines -/

/-- A line is in the range of a chunk. -/
def Holds (c : Chunk) (n : Nat) : Prop := c.startLine ≤ n ∧ n ≤ c.endLine

instance (c : Chunk) (n : Nat) : Decidable (c.Holds n) := inferInstanceAs (Decidable (_ ∧ _))

/-- The lines of a chunk that lie in none of its children among `cs`. -/
def ownLines (cs : List Chunk) (c : Chunk) : List Nat :=
  freeLines c.startLine c.endLine ((childrenIn cs c).map lineRange)

variable {cs : List Chunk} {c e : Chunk} {n : Nat}

theorem mem_ownLines :
    n ∈ ownLines cs c ↔ c.Holds n ∧ ∀ e ∈ cs, e.parentId = some c.id → ¬ e.Holds n := by
  rw [ownLines, mem_freeLines, ← and_assoc]
  refine and_congr_right fun _ => ?_
  simp only [List.forall_mem_map, mem_childrenIn, and_imp, lineRange, Holds]
  refine forall₃_congr fun e _ _ => ?_
  omega

/-- Two chunks with the same parent have no line in common. -/
def Apart (c e : Chunk) : Prop :=
  c.parentId = e.parentId → c.endLine < e.startLine ∨ e.endLine < c.startLine

instance : Std.Symm Apart := ⟨fun _ _ h heq => (h heq.symm).symm⟩

theorem nodup_ownLines (cs : List Chunk) (c : Chunk) : (ownLines cs c).Nodup :=
  List.Nodup.filter _ List.nodup_range'

/-! ## Forests -/

namespace IsForest

variable (h : IsForest cs)

include h

theorem exists_parent (hc : c ∈ cs) (hdepth : c.depth ≠ 0) :
    ∃ p ∈ cs, c.parentId = some p.id ∧ c.IsUnder p := by
  obtain ⟨before, after, rfl⟩ := List.append_of_mem hc
  have hsome : c.parentId ≠ none := fun hnone => hdepth ((h.top_iff c hc).mp hnone)
  obtain ⟨earlier, p, between, rfl, hid, hunder, -⟩ := h.parent before c after rfl hsome
  exact ⟨p, by simp, hid, hunder⟩

theorem eq_of_id_eq (hc : c ∈ cs) (he : e ∈ cs) (hid : c.id = e.id) : c = e :=
  List.inj_on_of_nodup_map h.distinct hc he hid

/-- Chunks with the same parent hold no common line. -/
theorem eq_of_parentId_eq (hc : c ∈ cs) (he : e ∈ cs) (hparent : c.parentId = e.parentId)
    (hcn : c.Holds n) (hen : e.Holds n) : c = e := by
  by_contra hne
  have hapart : cs.Pairwise Apart := h.apart.imp fun hlt heq => .inl (hlt heq)
  have hcases := hapart.forall hc he hne hparent
  unfold Holds at hcn hen
  omega

/-- Chunks of the same depth hold no common line. -/
theorem eq_of_depth_eq (hc : c ∈ cs) (he : e ∈ cs) (hdepth : c.depth = e.depth) (hcn : c.Holds n)
    (hen : e.Holds n) : c = e := by
  -- from the top down: the parents are the same, so the chunks are siblings
  induction hd : c.depth generalizing c e with
  | zero =>
    have hnone : c.parentId = none := (h.top_iff c hc).mpr hd
    have hnone' : e.parentId = none := (h.top_iff e he).mpr (hdepth ▸ hd)
    exact h.eq_of_parentId_eq hc he (hnone.trans hnone'.symm) hcn hen
  | succ d ih =>
    obtain ⟨p, hp, hpid, hunder⟩ := h.exists_parent hc (by omega)
    obtain ⟨q, hq, hqid, hunder'⟩ := h.exists_parent he (by omega)
    have hpd := hunder.depth_eq
    have hqd := hunder'.depth_eq
    have hpn : p.Holds n := ⟨hunder.start_le.trans hcn.1, hcn.2.trans hunder.le_end⟩
    have hqn : q.Holds n := ⟨hunder'.start_le.trans hen.1, hen.2.trans hunder'.le_end⟩
    obtain rfl := ih hp hq (by omega) hpn hqn (by omega)
    exact h.eq_of_parentId_eq hc he (hpid.trans hqid.symm) hcn hen

/-- What a chunk holds is held at every depth above it. -/
theorem exists_holder (he : e ∈ cs) (hen : e.Holds n) {k : Nat} (hk : k ≤ e.depth) :
    ∃ f ∈ cs, f.depth = k ∧ f.Holds n := by
  -- up from the chunk, one parent at a time
  induction hd : e.depth - k generalizing e with
  | zero => exact ⟨e, he, by omega, hen⟩
  | succ d ih =>
    obtain ⟨p, hp, -, hunder⟩ := h.exists_parent he (by omega)
    have hpd := hunder.depth_eq
    exact ih hp ⟨hunder.start_le.trans hen.1, hen.2.trans hunder.le_end⟩ (by omega) (by omega)

/-- A line that is a chunk's own is held by no deeper chunk. -/
theorem depth_le_of_mem_ownLines (hc : c ∈ cs) (hown : n ∈ ownLines cs c) (he : e ∈ cs)
    (hen : e.Holds n) : e.depth ≤ c.depth := by
  by_contra hlt
  obtain ⟨hcn, hnone⟩ := mem_ownLines.mp hown
  obtain ⟨f, hf, hfd, hfn⟩ := h.exists_holder he hen (show c.depth + 1 ≤ e.depth by omega)
  obtain ⟨p, hp, hid, hunder⟩ := h.exists_parent hf (by omega)
  have hpd := hunder.depth_eq
  have hpn : p.Holds n := ⟨hunder.start_le.trans hfn.1, hfn.2.trans hunder.le_end⟩
  -- the parent of the deeper chunk is the chunk itself
  obtain rfl := h.eq_of_depth_eq hp hc (by omega) hpn hcn
  exact hnone f hf hid hfn

theorem eq_of_mem_ownLines (hc : c ∈ cs) (he : e ∈ cs) (hcn : n ∈ ownLines cs c)
    (hen : n ∈ ownLines cs e) : c = e := by
  have hc' := (mem_ownLines.mp hcn).1
  have he' := (mem_ownLines.mp hen).1
  have hle := h.depth_le_of_mem_ownLines hc hcn he he'
  have hge := h.depth_le_of_mem_ownLines he hen hc hc'
  exact h.eq_of_depth_eq hc he (by omega) hc' he'

/-- A line that is held is the own line of the deepest chunk that holds it. -/
theorem exists_owner (hc : c ∈ cs) (hcn : c.Holds n) : ∃ e ∈ cs, n ∈ ownLines cs e := by
  cases hdeepest : (cs.filter fun e => e.Holds n).argmax depth with
  | none =>
    have hnil := List.argmax_eq_none.mp hdeepest
    exact absurd (List.mem_filter.mpr ⟨hc, decide_eq_true hcn⟩) (hnil ▸ List.not_mem_nil)
  | some e =>
    obtain ⟨he, hen⟩ := List.mem_filter.mp (List.argmax_mem hdeepest)
    refine ⟨e, he, mem_ownLines.mpr ⟨of_decide_eq_true hen, fun f hf hid hfn => ?_⟩⟩
    -- a child that held the line would be deeper
    have hle := List.le_of_mem_argmax (List.mem_filter.mpr ⟨hf, decide_eq_true hfn⟩) hdeepest
    have hsome : f.depth ≠ 0 := fun hzero => by
      rw [(h.top_iff f hf).mpr hzero] at hid
      cases hid
    obtain ⟨p, hp, hpid, hunder⟩ := h.exists_parent hf hsome
    obtain rfl := h.eq_of_id_eq hp he (Option.some.inj (hpid.symm.trans hid))
    have hdepth := hunder.depth_eq
    omega

/-- Where the chunks at the top tile the lines, each line is the own line of exactly one chunk. -/
theorem perm_ownLines {count : Nat}
    (htops : Tiles 1 (count + 1) ((cs.filter (·.depth = 0)).map lineRange)) :
    (cs.flatMap (ownLines cs)).Perm (List.range' 1 count) := by
  have hnodup : (cs.flatMap (ownLines cs)).Nodup := by
    refine List.nodup_flatMap.mpr ⟨fun c _ => nodup_ownLines cs c, ?_⟩
    refine (List.Nodup.of_map Chunk.id h.distinct).imp_of_mem fun {c e} hc he hne => ?_
    exact List.disjoint_left.mpr fun n hcn hen => hne (h.eq_of_mem_ownLines hc he hcn hen)
  refine (List.perm_ext_iff_of_nodup hnodup List.nodup_range').mpr fun n => ?_
  rw [List.mem_flatMap, List.mem_range'_1]
  constructor
  · -- an own line is held by a chunk at the top, which is in the file
    rintro ⟨c, hc, hown⟩
    obtain ⟨f, hf, hdepth, hfn⟩ := h.exists_holder hc (mem_ownLines.mp hown).1 (Nat.zero_le _)
    have htop : f.lineRange ∈ (cs.filter (·.depth = 0)).map lineRange :=
      List.mem_map_of_mem (List.mem_filter.mpr ⟨hf, decide_eq_true hdepth⟩)
    have hstart := (htops.le_of_mem htop).1
    have hend := htops.lt_of_mem htop
    unfold Holds at hfn
    simp only [lineRange] at hstart hend
    omega
  · -- a line of the file is held at the top, so it has an owner
    rintro ⟨hpos, hlt⟩
    obtain ⟨r, hr, hrange⟩ := htops.exists_mem hpos (show n < count + 1 by omega)
    obtain ⟨c, hc, rfl⟩ := List.mem_map.mp hr
    exact h.exists_owner (List.mem_filter.mp hc).1 hrange

end IsForest

/-! ## Files -/

/-- The text of a chunk, cut at newlines, has the chunk's own lines in order. -/
theorem KeepsIn.sublist {lines : List String} (h : c.KeepsIn lines cs) :
    ((ownLines cs c).map (lineAt lines)).Sublist (Text.split (· == '\n') c.content) := by
  obtain ⟨out, hout⟩ := h
  have hkept : ((ownLines cs c).map (lineAt lines)).Sublist out := hout.kept
  by_cases hne : out = []
  · have hnil := List.sublist_nil.mp (hne ▸ hkept)
    rw [hnil]
    exact List.nil_sublist _
  · rw [hout.content_eq, Text.split_unlines hne hout.isLine]
    exact hkept

/-- Cutting a file with a tree loses none of its lines: every line is the own line of exactly one
chunk, every chunk has the text of its own lines in order, and no row that is looked at is out of
range. -/
theorem ownLines_ofFile (parse : Parse) (file : SourceFile) (limits : ChunkLimits) {rules : Rules}
    {root : Node} (hblank : Text.isBlankText file.content = false)
    (hrules : Rules.ofLanguage? file.language = some rules)
    (hparse : parse file.language file.content = some root)
    (hroot : root.WellFormed file.content) :
    let cs := (ofFile parse file limits).chunks
    let lines := Text.lines file.content
    (cs.flatMap (ownLines cs)).Perm (List.range' 1 lines.length) ∧
      (∀ c ∈ cs, ((ownLines cs c).map (lineAt lines)).Sublist (Text.split (· == '\n') c.content)) ∧
      ofTree? rules file limits root = some cs := by
  have hlines := Text.lines_ne_nil hblank
  have hbodies := Rules.bodyInside_ofLanguage hrules
  intro cs lines
  have hcs : cs = ofTree rules file limits root := chunks_ofFile hblank hrules hparse limits
  rw [hcs]
  refine ⟨?_, fun c hc => ?_, ofTree?_eq limits hlines hbodies hroot⟩
  · exact (isForest_ofTree limits hlines hbodies hroot).perm_ownLines
      (tiles_ofTree limits hlines hbodies hroot)
  · exact (keeps_ofTree limits hlines hbodies hroot c hc).sublist

/-- The small header, with definitions of more than two lines split. -/
theorem ownLines_smallHeader :
    ∃ rules cs, Rules.ofLanguage? smallHeader.language = some rules ∧
      (ofFile (fun _ _ => some smallTree) smallHeader ⟨2, 1, 5, 0⟩).chunks = cs ∧
      cs.map lineRange = [(1, 1), (2, 4), (3, 3)] ∧
      (cs.flatMap (ownLines cs)).Perm (List.range' 1 (Text.lines smallHeader.content).length) ∧
      (∀ c ∈ cs, ((ownLines cs c).map (lineAt (Text.lines smallHeader.content))).Sublist
        (Text.split (· == '\n') c.content)) ∧
      ofTree? rules smallHeader ⟨2, 1, 5, 0⟩ smallTree = some cs := by
  refine ⟨_, _, rfl, rfl, by decide +kernel, ?_⟩
  exact ownLines_ofFile (fun _ _ => some smallTree) smallHeader ⟨2, 1, 5, 0⟩ (by decide +kernel) rfl
    rfl wellFormed_smallTree

/-! ## Blank files -/

/-- A file of one blank line. -/
def blankFile : SourceFile := .ofText ⟨"blank.py"⟩ .python "\n"

def blankTree : Node := (Node.ofRows? blankFile.content [⟨0, "module", true, "", 0, 1⟩]).getD default

/-- The line of a blank file is in no chunk: a blank file has none, whatever its tree is. -/
theorem not_perm_blankFile :
    blankTree.WellFormed blankFile.content ∧ (Rules.ofLanguage? blankFile.language).isSome = true ∧
      Text.lines blankFile.content = [""] ∧
      let cs := (ofFile (fun _ _ => some blankTree) blankFile ⟨120, 3, 40, 5⟩).chunks
      ¬ (cs.flatMap (ownLines cs)).Perm (List.range' 1 (Text.lines blankFile.content).length) := by
  have hlines : Text.lines blankFile.content = [""] := by decide +kernel
  have hblank : Text.isBlankText blankFile.content = true := by decide +kernel
  refine ⟨by decide +kernel, rfl, hlines, ?_⟩
  rw [ofFile, hblank, hlines]
  intro cs hperm
  exact absurd hperm.length_eq (by decide)

end Chunk

end SourceIndex
