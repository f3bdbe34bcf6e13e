import Mathlib
import SourceIndex.Proofs.Chunk.Coverage
import SourceIndex.Proofs.Excerpt.Numbering

/-! # Neighbouring lines

A chunk of a file begins and ends at lines of the file (`Chunk.lines_of_mem_ofFile`). If the file
still has the text that was cut, an excerpt shows the lines right before the chunk and right after
it, as many as are asked for and as the file has, each with its number. If not, it shows none and
says so, and all else is as if none had been asked for (`Chunk.context_excerpt`).
-/

set_option autoImplicit false

namespace SourceIndex

/-- The lines from `first` to `last` with their numbers. -/
def linesBetween (lines : List String) (first last : Nat) : List NumberedLine :=
  (List.range' first (last + 1 - first)).map fun n => ⟨n, Chunk.lineAt lines n⟩

/-- Lines that stand together in a file, numbered from the first of them on. -/
theorem numberLines_eq {lines : List String} {first count : Nat} (h : first + count ≤ lines.length) :
    numberLines (first + 1) ((lines.drop first).take count) =
      linesBetween lines (first + 1) (first + count) := by
  have hcount : first + count + 1 - (first + 1) = count := by omega
  rw [linesBetween, hcount, ← Chunk.map_lineAt_range' h, numberLines]
  refine List.ext_getElem (by simp) fun i hi _ => ?_
  simp

namespace Chunk

/-! ## Chunks among the lines of their file -/

theorem lines_of_mem_windows {file : SourceFile} {limits : ChunkLimits} {c : Chunk}
    (hc : c ∈ windows file limits) : 1 ≤ c.startLine ∧ c.startLine ≤ c.endLine ∧
      c.endLine ≤ (Text.lines file.content).length := by
  obtain ⟨i, hwindow⟩ := exists_index hc
  refine ⟨?_, hwindow.start_le, ?_⟩
  · rw [hwindow.startLine_eq]
    exact Nat.le_add_right 1 _
  · rw [hwindow.endLine_eq]
    exact Nat.min_le_right _ _

theorem lines_of_mem_ofTree {rules : Rules} {file : SourceFile} {root : Node} (limits : ChunkLimits)
    (hlines : Text.lines file.content ≠ []) (hrules : rules.BodyInside)
    (hroot : root.WellFormed file.content) {c : Chunk} (hc : c ∈ ofTree rules file limits root) :
    1 ≤ c.startLine ∧ c.startLine ≤ c.endLine ∧ c.endLine ≤ (Text.lines file.content).length := by
  have hforest := isForest_ofTree limits hlines hrules hroot
  have htiles := tiles_ofTree limits hlines hrules hroot
  have hle := hforest.start_le c hc
  -- both ends of the chunk are held at the top, where the chunks tile the lines
  have hheld : ∀ n, c.Holds n → 1 ≤ n ∧ n ≤ (Text.lines file.content).length := by
    intro n hn
    obtain ⟨f, hf, hdepth, hfn⟩ := hforest.exists_holder hc hn (Nat.zero_le _)
    have htop : f.lineRange ∈ ((ofTree rules file limits root).filter (·.depth = 0)).map lineRange :=
      List.mem_map_of_mem (List.mem_filter.mpr ⟨hf, decide_eq_true hdepth⟩)
    have hstart : 1 ≤ f.startLine := (htiles.le_of_mem htop).1
    have hend : f.endLine < (Text.lines file.content).length + 1 := htiles.lt_of_mem htop
    unfold Holds at hfn
    omega
  exact ⟨(hheld c.startLine ⟨le_refl _, hle⟩).1, hle, (hheld c.endLine ⟨hle, le_refl _⟩).2⟩

/-- A chunk of a file begins and ends at lines of the file. -/
theorem lines_of_mem_ofFile {parse : Parse} {file : SourceFile} {limits : ChunkLimits}
    (hparse : ∀ root, parse file.language file.content = some root → root.WellFormed file.content)
    {c : Chunk} (hc : c ∈ (ofFile parse file limits).chunks) : 1 ≤ c.startLine ∧
      c.startLine ≤ c.endLine ∧ c.endLine ≤ (Text.lines file.content).length := by
  rw [ofFile] at hc
  split at hc
  · cases hc
  · rename_i hblank
    split at hc
    · exact lines_of_mem_windows hc
    · rename_i rules hrules
      split at hc
      · exact lines_of_mem_windows hc
      · rename_i root hroot
        exact lines_of_mem_ofTree limits (Text.lines_ne_nil (by simpa using hblank))
          (Rules.bodyInside_ofLanguage hrules) (hparse root hroot) hc

/-! ## Lines around a chunk -/

/-- The neighbours of a chunk in a text with the digest it carries. -/
theorem surround_of_same {c : Chunk} {text : String} (hsame : Digest.ofText text = c.fileHash)
    (hpos : 1 ≤ c.startLine) (hle : c.startLine ≤ c.endLine)
    (hend : c.endLine ≤ (Text.lines text).length) (count : Nat) (e : Excerpt) :
    c.surround count (some text) e =
      { e with
        before := linesBetween (Text.lines text) (max 1 (c.startLine - count)) (c.startLine - 1)
        after := linesBetween (Text.lines text) (c.endLine + 1)
          (min (Text.lines text).length (c.endLine + count)) } := by
  rw [surround]
  simp only [if_pos hsame]
  generalize Text.lines text = lines at hend ⊢
  have hlast : min (c.startLine - 1) lines.length = c.startLine - 1 := by omega
  have hnext : min c.endLine lines.length = c.endLine := Nat.min_eq_left hend
  -- the neighbours before the chunk, up to the first line of the file
  have hbefore : numberLines (c.startLine - 1 - count + 1)
      ((lines.take (c.startLine - 1)).drop (c.startLine - 1 - count)) =
        linesBetween lines (max 1 (c.startLine - count)) (c.startLine - 1) := by
    have hfirst : c.startLine - 1 - count + 1 = max 1 (c.startLine - count) := by omega
    have hstop : c.startLine - 1 - count + (c.startLine - 1 - (c.startLine - 1 - count)) =
        c.startLine - 1 := by omega
    rw [List.drop_take, numberLines_eq (by omega), hfirst, hstop]
  -- those after it, up to the last one
  have hafter : numberLines (c.endLine + 1) ((lines.drop c.endLine).take count) =
      linesBetween lines (c.endLine + 1) (min lines.length (c.endLine + count)) := by
    have hstop : c.endLine + min count (lines.length - c.endLine) =
        min lines.length (c.endLine + count) := by omega
    rw [List.take_eq_take_min, List.length_drop, numberLines_eq (by omega), hstop]
  rw [hlast, hnext, hbefore, hafter]

/-- There are no neighbours in a text with another digest. -/
theorem surround_of_changed {c : Chunk} {text : String} (h : Digest.ofText text ≠ c.fileHash)
    (count : Nat) (e : Excerpt) :
    c.surround count (some text) e = { e with note := some changedNote } := by
  rw [surround]
  simp only [if_neg h]

/-- Without neighbouring lines an excerpt has none, and nothing is noted. -/
theorem describe_bare (c : Chunk) (o : OutputOptions) :
    (c.describe o).before = [] ∧ (c.describe o).after = [] ∧ (c.describe o).note = none := by
  cases hmode : o.mode <;> simp [describe, hmode, heading]

/-- An excerpt of a chunk of a file with neighbouring lines, where `source` reads the files as they
are now. If the file still has the text that was cut, no other text has its digest, the lines right
before the chunk and right after it are shown with their numbers, as many as are asked for and as
there are. Otherwise none are, and a note says why. All else is as without neighbouring lines. -/
theorem context_excerpt {parse : Parse} {file : SourceFile} {limits : ChunkLimits}
    (hdigest : file.contentHash = Digest.ofText file.content)
    (hparse : ∀ root, parse file.language file.content = some root → root.WellFormed file.content)
    {c : Chunk} (hc : c ∈ (ofFile parse file limits).chunks) {o : OutputOptions}
    (hcontext : 1 ≤ o.context) (source : Path → Option String)
    (hcollision : ∀ text, source file.path = some text →
      Digest.ofText text = Digest.ofText file.content → text = file.content) :
    let lines := Text.lines file.content
    let plain := c.excerpt { o with context := 0 } source
    (1 ≤ c.startLine ∧ c.startLine ≤ c.endLine ∧ c.endLine ≤ lines.length) ∧
    (plain.before = [] ∧ plain.after = [] ∧ plain.note = none) ∧
    (source file.path = some file.content → c.excerpt o source =
      { plain with
        before := linesBetween lines (max 1 (c.startLine - o.context)) (c.startLine - 1)
        after := linesBetween lines (c.endLine + 1) (min lines.length (c.endLine + o.context)) }) ∧
    (source file.path = none → c.excerpt o source = { plain with note := some unreadableNote }) ∧
    (∀ text, source file.path = some text → text ≠ file.content →
      c.excerpt o source = { plain with note := some changedNote }) := by
  have hpath : c.path = file.path := (emitted_ofFile parse file limits c hc).1
  have hhash : c.fileHash = Digest.ofText file.content :=
    (fileHash_ofFile parse file limits c hc).trans hdigest
  obtain ⟨hpos, hle, hend⟩ := lines_of_mem_ofFile hparse hc
  intro lines plain
  have hplain : plain = c.describe o := rfl
  have hexcerpt : c.excerpt o source = c.surround o.context (source file.path) plain := by
    rw [excerpt, hpath, if_neg (Nat.ne_of_gt hcontext), hplain]
  refine ⟨⟨hpos, hle, hend⟩, hplain ▸ describe_bare c o, fun hsame => ?_, fun hnone => ?_,
    fun text htext hother => ?_⟩
  · rw [hexcerpt, hsame]
    exact surround_of_same hhash.symm hpos hle hend o.context plain
  · rw [hexcerpt, hnone]
    rfl
  · rw [hexcerpt, htext]
    exact surround_of_changed (fun heq => hother (hcollision text htext (heq.trans hhash))) _ _

/-- The template of the small header with the lines around it. -/
theorem context_smallHeader :
    ∃ c ∈ (ofFile (fun _ _ => some smallTree) smallHeader ⟨2, 1, 5, 0⟩).chunks,
      c.lineRange = (3, 3) ∧
      let e := c.excerpt { wholeOptions with context := 2 } fun _ => some smallHeader.content
      e.before = [⟨1, "#include <vector>"⟩, ⟨2, "namespace geo \x7b"⟩] ∧ e.after = [⟨4, "\x7d"⟩] ∧
        e.note = none := by
  have hranges : (ofFile (fun _ _ => some smallTree) smallHeader ⟨2, 1, 5, 0⟩).chunks.map lineRange =
      [(1, 1), (2, 4), (3, 3)] := by decide +kernel
  have hmem : (3, 3) ∈ (ofFile (fun _ _ => some smallTree) smallHeader ⟨2, 1, 5, 0⟩).chunks.map
      lineRange := by simp [hranges]
  obtain ⟨c, hc, hrange⟩ := List.mem_map.mp hmem
  obtain ⟨hstart, hend⟩ : c.startLine = 3 ∧ c.endLine = 3 := Prod.mk.inj hrange
  have hdigest : smallHeader.contentHash = Digest.ofText smallHeader.content := by
    simp only [smallHeader, SourceFile.ofText]
  have hparse : ∀ root, (fun _ _ => some smallTree : Parse) smallHeader.language
      smallHeader.content = some root → root.WellFormed smallHeader.content := by
    rintro root ⟨⟩
    exact wellFormed_smallTree
  obtain ⟨-, ⟨-, -, hnote⟩, hsame, -⟩ := context_excerpt hdigest hparse hc
    (show 1 ≤ 2 by decide : 1 ≤ { wholeOptions with context := 2 }.context)
    (fun _ => some smallHeader.content) fun text htext _ => (Option.some.inj htext).symm
  have hbefore : linesBetween (Text.lines smallHeader.content) (max 1 (3 - 2)) (3 - 1) =
      [⟨1, "#include <vector>"⟩, ⟨2, "namespace geo \x7b"⟩] := by decide +kernel
  have hafter : linesBetween (Text.lines smallHeader.content) (3 + 1)
      (min (Text.lines smallHeader.content).length (3 + 2)) = [⟨4, "\x7d"⟩] := by decide +kernel
  refine ⟨c, hc, hrange, ?_⟩
  rw [hsame rfl, hstart, hend]
  exact ⟨hbefore, hafter, hnote⟩

end Chunk

end SourceIndex
