import Mathlib
import SourceIndex.Excerpt.Basic
import SourceIndex.Proofs.Chunk.Kept

/-! # Numbered lines

The lines that an excerpt shows of a chunk are numbered from the first line of the chunk on. Up to
the first child of the chunk the number of a line is its number in the file
(`Chunk.numbers_excerpt`): the line has the text of the file, but for a carriage return at its end
and for the cut at the last line that is shown. From the first child on this fails, because the lines
of a child are left out and those after it are numbered on without a gap
(`Chunk.misnumbered_smallHeader`).
-/

set_option autoImplicit false

namespace SourceIndex

theorem getElem?_numbered (text : String) (first i : Nat) :
    (numbered text first)[i]? = (Text.lines text)[i]?.map fun line => ⟨first + i, line⟩ := by
  rw [numbered, numberLines, List.getElem?_mapIdx]

/-- A text is what is shown of it and a rest; there is one only if the text is said to be cut. -/
theorem exists_truncateText (text : String) (limit : Nat) :
    ∃ as bs, text.toList = as ++ bs ∧ (truncateText text limit).1 = String.ofList as ∧
      (bs ≠ [] → (truncateText text limit).2 = true) := by
  unfold truncateText
  by_cases hlimit : limit < text.toList.length
  · refine ⟨text.toList.take limit, text.toList.drop limit, (List.take_append_drop _ _).symm, ?_, ?_⟩
    · simp only [if_pos hlimit]
    · simp only [if_pos hlimit, implies_true]
  · refine ⟨text.toList, [], (List.append_nil _).symm, ?_, by simp⟩
    simp only [if_neg hlimit, String.ofList_toList]

/-- How many characters of a chunk are shown at most. -/
def OutputOptions.shownCap (o : OutputOptions) : Nat :=
  match o.mode with
  | .compact | .standard => o.previewLength
  | .verbose => o.contentCap

/-- The numbered lines that an excerpt shows of its chunk. -/
def Excerpt.shown (e : Excerpt) : List NumberedLine := e.preview ++ e.content

/-- Whether an excerpt says that its chunk is cut. -/
def Excerpt.isCut (e : Excerpt) : Bool := e.previewTruncated || e.contentTruncated

namespace Chunk

/-- Looking for neighbouring lines changes nothing else. -/
theorem exists_surround (c : Chunk) (count : Nat) (source : Option String) (e : Excerpt) :
    ∃ before after note, c.surround count source e = { e with before, after, note } := by
  unfold surround
  cases source with
  | none => exact ⟨_, _, _, rfl⟩
  | some text =>
    simp only
    by_cases hsame : Digest.ofText text = c.fileHash
    · rw [if_pos hsame]
      exact ⟨_, _, _, rfl⟩
    · rw [if_neg hsame]
      exact ⟨_, _, _, rfl⟩

theorem shown_describe (c : Chunk) (o : OutputOptions) :
    (c.describe o).shown = numbered (truncateText c.content o.shownCap).1 c.startLine ∧
      (c.describe o).isCut = (truncateText c.content o.shownCap).2 := by
  -- a preview or the content, whichever the mode shows, is a cut of the same text
  cases hmode : o.mode <;>
    simp [describe, OutputOptions.shownCap, Excerpt.shown, Excerpt.isCut, hmode, heading]

theorem shown_excerpt (c : Chunk) (o : OutputOptions) (source : Path → Option String) :
    (c.excerpt o source).shown = numbered (truncateText c.content o.shownCap).1 c.startLine ∧
      (c.excerpt o source).isCut = (truncateText c.content o.shownCap).2 := by
  rw [excerpt]
  by_cases hcontext : o.context = 0
  · rw [if_pos hcontext]
    exact shown_describe c o
  · rw [if_neg hcontext]
    obtain ⟨before, after, note, heq⟩ := exists_surround c o.context (source c.path) (c.describe o)
    rw [heq]
    exact shown_describe c o

/-- What is shown of a chunk that keeps its lines: before the first of the ranges `inner` every line
has the number it has in the file. -/
theorem Keeps.numbers {lines : List String} {inner : List (Nat × Nat)} {c : Chunk}
    (h : c.Keeps lines inner) (o : OutputOptions)
    (source : Path → Option String) {i : Nat} {l : NumberedLine}
    (hl : (c.excerpt o source).shown[i]? = some l) :
    l.number = c.startLine + i ∧ ((∀ r ∈ inner, l.number < r.1) →
      ∃ line, lines[l.number - 1]? = some line ∧ (l.text = line ∨ l.text ++ "\r" = line ∨
        (i + 1 = (c.excerpt o source).shown.length ∧ (c.excerpt o source).isCut = true ∧
          l.text.toList <+: line.toList))) := by
  obtain ⟨out, hout⟩ := h
  obtain ⟨hshown, hcut⟩ := shown_excerpt c o source
  obtain ⟨as, bs, htext, hleading, hrest⟩ := exists_truncateText c.content o.shownCap
  rw [hleading] at hshown
  have hlength : (c.excerpt o source).shown.length = (Text.lines (String.ofList as)).length := by
    rw [hshown, numbered, numberLines, List.length_mapIdx]
  rw [hshown, getElem?_numbered] at hl
  obtain ⟨t, ht, rfl⟩ := Option.map_eq_some_iff.mp hl
  refine ⟨rfl, fun hbefore => ?_⟩
  rw [hout.content_eq] at htext
  obtain ⟨line, hline, hcases⟩ := Text.lines_leading hout.isLine htext ht
  have hpos := hout.pos
  have hi : i < out.length := (List.getElem?_eq_some_iff.mp hline).1
  have hindex : c.startLine + i - 1 = c.startLine - 1 + i := by omega
  refine ⟨line, ?_, ?_⟩
  · show lines[c.startLine + i - 1]? = some line
    rw [hindex, ← hout.head i hi hbefore, hline]
  · rcases hcases with heq | hreturn | ⟨hne, hlast, hprefix⟩
    · exact .inl heq
    · exact .inr (.inl hreturn)
    · exact .inr (.inr ⟨hlength ▸ hlast, hcut.trans (hrest hne), hprefix⟩)

/-- The lines that are shown of a chunk of a file are numbered from its first line on. Before the
first child of the chunk the number of a line is its number in the file; the last line may be cut,
and a carriage return at the end of a line may be lost. -/
theorem numbers_excerpt {parse : Parse} {file : SourceFile} {limits : ChunkLimits}
    (hparse : ∀ root, parse file.language file.content = some root → root.WellFormed file.content)
    {c : Chunk} (hc : c ∈ (ofFile parse file limits).chunks) (o : OutputOptions)
    (source : Path → Option String) {i : Nat} {l : NumberedLine}
    (hl : (c.excerpt o source).shown[i]? = some l) :
    l.number = c.startLine + i ∧
      ((∀ e ∈ (ofFile parse file limits).chunks, e.parentId = some c.id → l.number < e.startLine) →
        ∃ line, (Text.lines file.content)[l.number - 1]? = some line ∧
          (l.text = line ∨ l.text ++ "\r" = line ∨
            (i + 1 = (c.excerpt o source).shown.length ∧ (c.excerpt o source).isCut = true ∧
              l.text.toList <+: line.toList))) := by
  obtain ⟨hnumber, hline⟩ := (keeps_ofFile hparse c hc).numbers o source hl
  refine ⟨hnumber, fun hbefore => hline fun r hr => ?_⟩
  obtain ⟨e, he, rfl⟩ := List.mem_map.mp hr
  obtain ⟨hmem, hid⟩ := mem_childrenIn.mp he
  exact hbefore e hmem hid

/-! ## A small header -/

/-- The options for a chunk that is shown whole. -/
def wholeOptions : OutputOptions where
  mode := .verbose
  fullContent := true
  previewLength := 200
  context := 0
  maxContentLength := 5000
  hardMaxContentLength := 100000

/-- What is shown of a chunk of the small header, with definitions of more than two lines split. -/
def smallShown (i : Nat) : Option (List NumberedLine × Bool) :=
  (ofFile (fun _ _ => some smallTree) smallHeader ⟨2, 1, 5, 0⟩).chunks[i]?.map fun c =>
    ((c.excerpt wholeOptions fun _ => none).shown, (c.excerpt wholeOptions fun _ => none).isCut)

/-- The first line that is shown of the namespace is the second line of the file. -/
theorem numbers_smallHeader :
    ∃ c ∈ (ofFile (fun _ _ => some smallTree) smallHeader ⟨2, 1, 5, 0⟩).chunks,
      (c.excerpt wholeOptions fun _ => none).shown[0]? = some ⟨2, "namespace geo \x7b"⟩ ∧
        2 = c.startLine + 0 ∧ ∃ line, (Text.lines smallHeader.content)[2 - 1]? = some line ∧
          ("namespace geo \x7b" = line ∨ "namespace geo \x7b" ++ "\r" = line ∨
            (0 + 1 = (c.excerpt wholeOptions fun _ => none).shown.length ∧
              (c.excerpt wholeOptions fun _ => none).isCut = true ∧
              "namespace geo \x7b".toList <+: line.toList)) := by
  have hshown : (smallShown 1).map (fun p => p.1[0]?) = some (some ⟨2, "namespace geo \x7b"⟩) := by
    decide +kernel
  rw [smallShown, Option.map_map] at hshown
  obtain ⟨c, hc, hl⟩ := Option.map_eq_some_iff.mp hshown
  -- the only chunk below another begins later
  have hbelow : ∀ e ∈ (ofFile (fun _ _ => some smallTree) smallHeader ⟨2, 1, 5, 0⟩).chunks,
      e.parentId.isSome = true → 2 < e.startLine := by decide +kernel
  obtain ⟨hnumber, hline⟩ := numbers_excerpt
    (fun root hroot => Option.some.inj hroot ▸ wellFormed_smallTree) (List.mem_of_getElem? hc)
    wholeOptions (fun _ => none) hl
  exact ⟨c, List.mem_of_getElem? hc, hl, hnumber, hline fun e he hid => hbelow e he (hid ▸ rfl)⟩

/-- After its child the namespace is numbered on without a gap, beyond the end of the file. -/
theorem misnumbered_smallHeader :
    smallShown 1 = some ([⟨2, "namespace geo \x7b"⟩, ⟨3, "template <typename T> class Point \x7b\x7d;"⟩,
      ⟨4, "    ..."⟩, ⟨5, "\x7d"⟩], false) ∧
    Text.lines smallHeader.content = ["#include <vector>", "namespace geo \x7b",
      "template <typename T> class Point \x7b\x7d;", "\x7d"] := by
  decide +kernel

end Chunk

end SourceIndex
