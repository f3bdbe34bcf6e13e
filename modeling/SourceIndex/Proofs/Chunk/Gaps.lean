import Mathlib
import SourceIndex.Proofs.Chunk.Slices

/-! # Lines beside children

The text of a parent is made of the gaps between its children, each of which is replaced by lines
that stand for it. So it has the lines that lie in none of the children, in order
(`Child.free_sublist_elidedFrom`), and before the first child a line is where it is in the file
(`Child.getElem?_elidedFrom`).
-/

set_option autoImplicit false

namespace SourceIndex

namespace Chunk

/-! ## Lines beside ranges -/

/-- A line of a file, counted from one. -/
def lineAt (lines : List String) (n : Nat) : String := lines.getD (n - 1) ""

/-- The lines from `first` to `last` that lie in none of the ranges. -/
def freeLines (first last : Nat) (inner : List (Nat × Nat)) : List Nat :=
  (List.range' first (last + 1 - first)).filter fun n => inner.all fun r => n < r.1 || r.2 < n

theorem mem_freeLines {first last n : Nat} {inner : List (Nat × Nat)} :
    n ∈ freeLines first last inner ↔ first ≤ n ∧ n ≤ last ∧ ∀ r ∈ inner, n < r.1 ∨ r.2 < n := by
  simp only [freeLines, List.mem_filter, List.mem_range'_1, List.all_eq_true, Bool.or_eq_true,
    decide_eq_true_eq, ← and_assoc]
  refine and_congr_left fun _ => ?_
  omega

theorem freeLines_nil (first last : Nat) :
    freeLines first last [] = List.range' first (last + 1 - first) := by
  simp [freeLines]

theorem range'_split {a b c : Nat} (hab : a ≤ b) (hbc : b ≤ c) :
    List.range' a (c - a) = List.range' a (b - a) ++ List.range' b (c - b) := by
  have hb : a + (b - a) = b := by omega
  have hc : b - a + (c - b) = c - a := by omega
  rw [← hc, ← List.range'_append_1, hb]

/-- Around the first of several ranges, the free lines are those before it and those after it. -/
theorem freeLines_cons {first last : Nat} {r : Nat × Nat} {inner : List (Nat × Nat)}
    (hfirst : first ≤ r.1) (hle : r.1 ≤ r.2) (hlast : r.2 ≤ last) (hafter : ∀ q ∈ inner, r.2 < q.1) :
    freeLines first last (r :: inner) =
      List.range' first (r.1 - first) ++ freeLines (r.2 + 1) last inner := by
  -- the lines before the first range, those in it and those after it
  rw [freeLines, freeLines, range'_split hfirst (show r.1 ≤ last + 1 by omega),
    range'_split (show r.1 ≤ r.2 + 1 by omega) (show r.2 + 1 ≤ last + 1 by omega),
    List.filter_append, List.filter_append]
  have hbefore : ∀ n ∈ List.range' first (r.1 - first),
      ((r :: inner).all fun q => n < q.1 || q.2 < n) = true := by
    intro n hn
    have hlt : n < r.1 := by
      have := List.mem_range'_1.mp hn
      omega
    refine List.all_eq_true.mpr fun q hq => ?_
    rcases List.mem_cons.mp hq with rfl | hq
    · simp [hlt]
    · have := hafter q hq
      have hlt' : n < q.1 := by omega
      simp [hlt']
  have hwithin : ∀ n ∈ List.range' r.1 (r.2 + 1 - r.1),
      ¬ ((r :: inner).all fun q => n < q.1 || q.2 < n) = true := by
    intro n hn
    have hrange := List.mem_range'_1.mp hn
    have h₁ : ¬ n < r.1 := by omega
    have h₂ : ¬ r.2 < n := by omega
    simp [h₁, h₂]
  have hrest : ∀ n ∈ List.range' (r.2 + 1) (last + 1 - (r.2 + 1)),
      ((r :: inner).all fun q => n < q.1 || q.2 < n) = inner.all fun q => n < q.1 || q.2 < n := by
    intro n hn
    have hlt : r.2 < n := by
      have := List.mem_range'_1.mp hn
      omega
    simp [hlt]
  rw [List.filter_eq_self.mpr hbefore, List.filter_eq_nil_iff.mpr hwithin, List.filter_congr hrest,
    List.nil_append]

/-- More ranges leave fewer lines. -/
theorem freeLines_sublist {inner inner' : List (Nat × Nat)} (h : ∀ r ∈ inner, r ∈ inner')
    (first last : Nat) : (freeLines first last inner').Sublist (freeLines first last inner) := by
  refine List.monotone_filter_right _ fun n hn => ?_
  rw [List.all_eq_true] at hn ⊢
  exact fun r hr => hn r (h r hr)

/-- The lines of a range, one by one and as a slice. -/
theorem map_lineAt_range' {lines : List String} {first count : Nat} (h : first + count ≤ lines.length) :
    (List.range' (first + 1) count).map (lineAt lines) = (lines.drop first).take count := by
  refine List.ext_getElem (by simp; omega) fun i hi _ => ?_
  have hcount : i < count := by simpa using hi
  have hline : lineAt lines (first + 1 + i) = lines[first + i] := by
    have hindex : first + 1 + i - 1 = first + i := by omega
    rw [lineAt, hindex, List.getD_eq_getElem _ _ (by omega)]
  simpa using hline

end Chunk

/-! ## What is left beside children -/

namespace Child

open Chunk (freeLines lineAt)

variable {outer : Node} {lines : List String} {last row : Nat} {cs : List (Child outer)}

/-- The lines of a child, ends included. -/
def lineRange (c : Child outer) : Nat × Nat := (c.start + 1, c.stop + 1)

theorem Ordered.le_start (h : Ordered last row cs) {c : Child outer} (hc : c ∈ cs) :
    row ≤ c.start := by
  induction cs generalizing row with
  | nil => cases hc
  | cons d ds ih =>
    obtain ⟨hstart, hle, -, hrest⟩ := h
    rcases List.mem_cons.mp hc with rfl | hc
    · exact hstart
    · have := ih hrest hc
      omega

theorem length_rows {first bound : Nat} (h : bound ≤ lines.length) :
    (rows lines first bound).length = bound - first := by
  rw [rows, List.length_take, List.length_drop]
  omega

/-- What is left of a parent has the lines that lie in none of its children. -/
theorem free_sublist_elidedFrom (h : Ordered last row cs) (hlast : last < lines.length) :
    ((freeLines (row + 1) (last + 1) (cs.map lineRange)).map (lineAt lines)).Sublist
      (elidedFrom lines last row cs) := by
  induction cs generalizing row with
  | nil =>
    rw [List.map_nil, Chunk.freeLines_nil, elidedFrom, rows]
    have hcount : last + 1 + 1 - (row + 1) = last + 1 - row := by omega
    rw [hcount]
    rcases Nat.le_total row (last + 1) with hle | hle
    · rw [Chunk.map_lineAt_range' (by omega)]
    · rw [Nat.sub_eq_zero_of_le hle]
      exact List.nil_sublist _
  | cons c cs ih =>
    obtain ⟨hstart, hle, hstop, hrest⟩ := h
    have hafter : ∀ q ∈ cs.map lineRange, (lineRange c).2 < q.1 := by
      intro q hq
      obtain ⟨d, hd, rfl⟩ := List.mem_map.mp hq
      have := hrest.le_start hd
      simp only [lineRange]
      omega
    rw [List.map_cons, Chunk.freeLines_cons (by simp only [lineRange]; omega)
      (by simp only [lineRange]; omega) (by simp only [lineRange]; omega) hafter, List.map_append,
      elidedFrom]
    have hgap : (List.range' (row + 1) ((lineRange c).1 - (row + 1))).map (lineAt lines) =
        rows lines row c.start := by
      have hcount : (lineRange c).1 - (row + 1) = c.start - row := by
        simp only [lineRange]
        omega
      rw [hcount, Chunk.map_lineAt_range' (by omega), rows]
    rw [hgap]
    refine List.Sublist.append ?_ (ih hrest)
    exact List.sublist_append_left _ _

/-- Before the first child every line is where it is in the file. -/
theorem getElem?_elidedFrom (hordered : Ordered last row cs) (hlast : last < lines.length) {i : Nat}
    (hi : i < (elidedFrom lines last row cs).length) (hbefore : ∀ c ∈ cs, row + i < c.start) :
    (elidedFrom lines last row cs)[i]? = lines[row + i]? := by
  cases cs with
  | nil =>
    rw [elidedFrom, length_rows hlast] at hi
    rw [elidedFrom, rows, List.getElem?_take_of_lt hi, List.getElem?_drop]
  | cons c cs =>
    have hgap := hbefore c List.mem_cons_self
    obtain ⟨-, hle, hstop, -⟩ := hordered
    have hlength : (rows lines row c.start).length = c.start - row := length_rows (by omega)
    rw [elidedFrom, List.append_assoc, List.getElem?_append_left (by omega), rows,
      List.getElem?_take_of_lt (by omega), List.getElem?_drop]

/-! ### Lines without line ends -/

theorem isLine_getD (h : ∀ l ∈ lines, Text.IsLine l) (n : Nat) : Text.IsLine (lines.getD n "") := by
  rw [List.getD_eq_getElem?_getD]
  cases hn : lines[n]? with
  | none => exact List.not_mem_nil
  | some l => exact h l (List.mem_of_getElem? hn)

theorem isLine_indentation_append {line dots : String} (h : Text.IsLine line)
    (hdots : Text.IsLine dots) : Text.IsLine (indentation line ++ dots) := by
  unfold Text.IsLine indentation at *
  rw [String.toList_append, String.toList_ofList, List.mem_append]
  rintro (hmem | hmem)
  · exact h ((List.takeWhile_sublist _).subset hmem)
  · exact hdots hmem

theorem isLine_of_mem_placeholder (h : ∀ l ∈ lines, Text.IsLine l) (c : Child outer) :
    ∀ l ∈ c.placeholder lines, Text.IsLine l := by
  cases c with
  | definition site inside start stop =>
    have hheader := isLine_getD h (min (max site.definition.core.start.row start) stop)
    intro l hl
    rcases List.mem_cons.mp hl with rfl | hl
    · exact hheader
    · obtain rfl := List.mem_singleton.mp hl
      exact isLine_indentation_append hheader (by decide)
  | window statements start stop =>
    intro l hl
    obtain rfl := List.mem_singleton.mp hl
    exact isLine_indentation_append (isLine_getD h start) (by decide)

theorem isLine_of_mem_rows (h : ∀ l ∈ lines, Text.IsLine l) (first bound : Nat) :
    ∀ l ∈ rows lines first bound, Text.IsLine l :=
  fun l hl => h l (List.mem_of_mem_drop (List.mem_of_mem_take hl))

theorem isLine_of_mem_elidedFrom (h : ∀ l ∈ lines, Text.IsLine l) (last row : Nat)
    (cs : List (Child outer)) : ∀ l ∈ elidedFrom lines last row cs, Text.IsLine l := by
  induction cs generalizing row with
  | nil => exact isLine_of_mem_rows h row (last + 1)
  | cons c cs ih =>
    intro l hl
    rw [elidedFrom] at hl
    rcases List.mem_append.mp hl with hl | hl
    · rcases List.mem_append.mp hl with hl | hl
      · exact isLine_of_mem_rows h row c.start l hl
      · exact isLine_of_mem_placeholder h c l hl
    · exact ih (c.stop + 1) l hl

end Child

end SourceIndex
