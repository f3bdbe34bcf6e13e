import Mathlib
import SourceIndex.Chunk.Segment

/-! # The top of a file is tiled

The segments of a file cover its rows without a gap and without an overlap
(`Segment.layout_tiles`): `extend` keeps the segments apart, `tile` closes the gaps, and `mergeShort`
only moves borders. None of the three takes a row away from a definition.
-/

set_option autoImplicit false

namespace SourceIndex

/-! ## Tilings -/

/-- Ranges of numbers, ends included, each of which begins right after the one before it. The first
one begins at `first`, and the last one ends right before `bound`. -/
def Tiles : (first bound : Nat) → List (Nat × Nat) → Prop
  | first, bound, [] => first = bound
  | first, bound, (start, stop) :: rest => start = first ∧ start ≤ stop ∧ Tiles (stop + 1) bound rest

theorem tiles_append {a c : Nat} {ls rs : List (Nat × Nat)} :
    Tiles a c (ls ++ rs) ↔ ∃ b, Tiles a b ls ∧ Tiles b c rs := by
  induction ls generalizing a with
  | nil => simp [Tiles]
  | cons r ls ih =>
    simp only [List.cons_append, Tiles, ih]
    constructor
    · rintro ⟨hstart, hle, b, hls, hrs⟩
      exact ⟨b, ⟨hstart, hle, hls⟩, hrs⟩
    · rintro ⟨b, ⟨hstart, hle, hls⟩, hrs⟩
      exact ⟨hstart, hle, b, hls, hrs⟩

/-- The same ranges, counted from one. -/
theorem Tiles.succ {a b : Nat} {rs : List (Nat × Nat)} (h : Tiles a b rs) :
    Tiles (a + 1) (b + 1) (rs.map fun r => (r.1 + 1, r.2 + 1)) := by
  induction rs generalizing a with
  | nil => simpa [Tiles] using h
  | cons r rs ih =>
    obtain ⟨hstart, hle, hrest⟩ := h
    exact ⟨by omega, by omega, ih hrest⟩

theorem Tiles.le_of_mem {a b : Nat} {rs : List (Nat × Nat)} (h : Tiles a b rs) {r : Nat × Nat}
    (hr : r ∈ rs) : a ≤ r.1 ∧ r.1 ≤ r.2 := by
  induction rs generalizing a with
  | nil => cases hr
  | cons q rs ih =>
    obtain ⟨hstart, hle, hrest⟩ := h
    rcases List.mem_cons.mp hr with rfl | hr
    · exact ⟨hstart.ge, hle⟩
    · have := ih hrest hr
      omega

theorem Tiles.le {a b : Nat} {rs : List (Nat × Nat)} (h : Tiles a b rs) : a ≤ b := by
  induction rs generalizing a with
  | nil => exact Nat.le_of_eq h
  | cons r rs ih =>
    obtain ⟨hstart, hle, hrest⟩ := h
    have := ih hrest
    omega

theorem Tiles.lt_of_mem {a b : Nat} {rs : List (Nat × Nat)} (h : Tiles a b rs) {r : Nat × Nat}
    (hr : r ∈ rs) : r.2 < b := by
  induction rs generalizing a with
  | nil => cases hr
  | cons q rs ih =>
    obtain ⟨-, -, hrest⟩ := h
    rcases List.mem_cons.mp hr with rfl | hr
    · exact hrest.le
    · exact ih hrest hr

/-- Ranges of a tiling end before the ranges after them begin. -/
theorem Tiles.pairwise {a b : Nat} {rs : List (Nat × Nat)} (h : Tiles a b rs) :
    rs.Pairwise fun r s => r.2 < s.1 := by
  induction rs generalizing a with
  | nil => exact List.Pairwise.nil
  | cons r rs ih =>
    obtain ⟨-, hle, hrest⟩ := h
    refine List.pairwise_cons.mpr ⟨fun s hs => ?_, ih hrest⟩
    have := (hrest.le_of_mem hs).1
    omega

namespace Segment

/-- The rows of a segment, ends included. -/
def range (s : Segment) : Nat × Nat := (s.start, s.stop)

/-- The rows of a segment include those of its definition, which satisfies `P`. -/
def Covers (P : Site → Prop) (s : Segment) : Prop :=
  ∀ site, s.piece = .definition site →
    P site ∧ s.start ≤ site.outer.start.row ∧ site.outer.lastRow ≤ s.stop

variable {P : Site → Prop} {rules : Rules} {source : String} {last : Nat}

theorem Covers.widen {s : Segment} (h : s.Covers P) {start stop : Nat} (hstart : start ≤ s.start)
    (hstop : s.stop ≤ stop) : Covers P { s with start, stop } := by
  intro site hsite
  obtain ⟨hP, hfirst, hlast⟩ := h site hsite
  exact ⟨hP, by simp only; omega, by simp only; omega⟩

theorem covers_statements (start stop : Nat) : Covers P ⟨.statements, start, stop⟩ := by
  intro site hsite
  cases hsite

/-! ## Reading segments off the root -/

/-- Segments apart from each other, the last one first, on the rows up to `last`. -/
structure Laid (P : Site → Prop) (last : Nat) (done : List Segment) : Prop where
  apart : done.Pairwise fun s t => t.stop < s.start
  each : ∀ s ∈ done, s.start ≤ s.stop ∧ s.stop ≤ last ∧ s.Covers P

theorem Laid.nil : Laid P last [] := ⟨List.Pairwise.nil, fun s hs => by cases hs⟩

theorem Laid.push {done : List Segment} (h : Laid P last done) {s : Segment}
    (hbefore : ∀ t ∈ done, t.stop < s.start) (hs : s.start ≤ s.stop ∧ s.stop ≤ last ∧ s.Covers P) :
    Laid P last (s :: done) where
  apart := List.pairwise_cons.mpr ⟨hbefore, h.apart⟩
  each t ht := by
    rcases List.mem_cons.mp ht with rfl | hdone
    · exact hs
    · exact h.each t hdone

/-- The last segment may end later. -/
theorem Laid.prolong {prev : Segment} {done : List Segment} (h : Laid P last (prev :: done))
    {stop : Nat} (hle : prev.stop ≤ stop) (hlast : stop ≤ last) :
    Laid P last ({ prev with stop } :: done) := by
  obtain ⟨hbefore, hapart⟩ := List.pairwise_cons.mp h.apart
  obtain ⟨hrange, -, hcovers⟩ := h.each prev List.mem_cons_self
  have hdone : Laid P last done := ⟨hapart, fun t ht => h.each t (List.mem_cons_of_mem prev ht)⟩
  exact hdone.push hbefore ⟨by simp only; omega, hlast, hcovers.widen (le_refl _) hle⟩

/-- The segments end before a row that comes after the last one of them. -/
theorem Laid.before {prev : Segment} {done : List Segment} (h : Laid P last (prev :: done))
    {row : Nat} (hrow : prev.stop < row) : ∀ t ∈ prev :: done, t.stop < row := by
  intro t ht
  rcases List.mem_cons.mp ht with rfl | hdone
  · exact hrow
  · have hapart := (List.pairwise_cons.mp h.apart).1 t hdone
    have hrange := (h.each prev List.mem_cons_self).1
    omega

/-- One more child of the root keeps the segments apart. -/
theorem Laid.extend {done : List Segment} (h : Laid P last done) (maxLines : Nat) {n : Node}
    (before : List Node) (hrows : n.start.row ≤ n.lastRow) (hlast : n.lastRow ≤ last)
    (hP : ∀ d, rules.definition? source n = some d → P ⟨n, before, d⟩) :
    Laid P last (extend rules source maxLines done n before) := by
  have hdefinition : ∀ d, rules.definition? source n = some d →
      Covers P ⟨.definition ⟨n, before, d⟩, n.start.row, n.lastRow⟩ := by
    intro d hd site hsite
    cases hsite
    exact ⟨hP d hd, le_refl _, le_refl _⟩
  cases done with
  | nil =>
    simp only [Segment.extend]
    cases hd : rules.definition? source n with
    | none => exact Laid.nil.push (by simp) ⟨hrows, hlast, covers_statements _ _⟩
    | some d => exact Laid.nil.push (by simp) ⟨hrows, hlast, hdefinition d hd⟩
  | cons prev rest =>
    simp only [Segment.extend]
    by_cases hrow : n.start.row ≤ prev.stop
    · rw [if_pos hrow]
      have hprev := (h.each prev List.mem_cons_self).2.1
      exact h.prolong (le_max_left _ _) (max_le hprev hlast)
    · rw [if_neg hrow]
      have hbefore := h.before (Nat.lt_of_not_le hrow)
      cases hd : rules.definition? source n with
      | some d => exact h.push hbefore ⟨hrows, hlast, hdefinition d hd⟩
      | none =>
        simp only
        split
        · exact h.prolong (by omega) hlast
        · exact h.push hbefore ⟨hrows, hlast, covers_statements _ _⟩

theorem mem_of_mem_withBefore {n : Node} {before passed ns : List Node}
    (h : (n, before) ∈ Node.withBefore passed ns) : n ∈ ns := by
  induction ns generalizing passed with
  | nil => simp [Node.withBefore] at h
  | cons m ns ih =>
    rw [Node.withBefore] at h
    rcases List.mem_cons.mp h with heq | hrest
    · obtain ⟨rfl, -⟩ := Prod.mk.inj heq
      exact List.mem_cons_self
    · exact List.mem_cons_of_mem m (ih hrest)

theorem laid_segmentsOf (maxLines : Nat) {root : Node}
    (hrows : ∀ n ∈ root.namedChildren, n.start.row ≤ n.lastRow ∧ n.lastRow ≤ last)
    (hP : ∀ n ∈ root.namedChildren, ∀ before d, rules.definition? source n = some d →
      P ⟨n, before, d⟩) :
    Laid P last (segmentsOf rules source maxLines root).reverse := by
  rw [segmentsOf, List.reverse_reverse]
  refine List.foldlRecOn _ _ Laid.nil fun done hdone entry hentry => ?_
  obtain ⟨n, before⟩ := entry
  have hchild := mem_of_mem_withBefore hentry
  simp only
  split
  · exact hdone
  · exact hdone.extend maxLines before (hrows n hchild).1 (hrows n hchild).2
      (hP n hchild before)

/-! ## Closing the gaps -/

/-- Segments that are apart become a tiling, and none of them loses a row. -/
theorem tiles_tile {segments : List Segment} (hne : segments ≠ []) {first : Nat}
    (hfirst : ∀ s ∈ segments, first ≤ s.start) (h : Laid P last segments.reverse) :
    Tiles first (last + 1) ((tile last first segments).map range) ∧
      ∀ s ∈ tile last first segments, s.Covers P := by
  induction segments generalizing first with
  | nil => exact absurd rfl hne
  | cons s rest ih =>
    have hle := hfirst s List.mem_cons_self
    obtain ⟨hrange, hlast, hcovers⟩ := h.each s (by simp)
    cases rest with
    | nil =>
      have hstop : max s.stop last = last := max_eq_right hlast
      rw [tile, hstop]
      constructor
      · exact ⟨rfl, hle.trans (hrange.trans hlast), rfl⟩
      · intro t ht
        obtain rfl := List.mem_singleton.mp ht
        exact hcovers.widen hle hlast
    | cons t rest =>
      -- the segments after `s` begin after its last row
      have hsplit := List.pairwise_append.mp (List.reverse_cons ▸ h.apart)
      have hafter : ∀ r ∈ t :: rest, s.stop + 1 ≤ r.start := fun r hr =>
        hsplit.2.2 r (List.mem_reverse.mpr hr) s (List.mem_singleton_self s)
      have hrest : Laid P last (t :: rest).reverse :=
        ⟨hsplit.1, fun r hr => h.each r (by rw [List.reverse_cons]; exact List.mem_append_left _ hr)⟩
      obtain ⟨htiles, hcover⟩ := ih (List.cons_ne_nil t rest) hafter hrest
      rw [tile]
      constructor
      · exact ⟨rfl, hle.trans hrange, htiles⟩
      · intro r hr
        rcases List.mem_cons.mp hr with rfl | hr
        · exact hcovers.widen hle (le_refl _)
        · exact hcover r hr

/-! ## Moving borders -/

/-- Segments of which the first one begins at the row that is carried. -/
def reopen (carried : Option Nat) : List Segment → List Segment
  | [] => []
  | s :: rest => { s with start := carried.getD s.start } :: rest

theorem reopen_none (segments : List Segment) : reopen none segments = segments := by
  cases segments <;> rfl

/-- The segments so far and those to come, with the rows that are carried, stay a tiling. -/
theorem tiles_mergeShortFrom {least first bound : Nat} {carried : Option Nat}
    {done segments : List Segment}
    (htiles : Tiles first bound ((done.reverse ++ reopen carried segments).map range))
    (hcovers : ∀ s ∈ done.reverse ++ reopen carried segments, s.Covers P) :
    Tiles first bound ((mergeShortFrom least carried done segments).map range) ∧
      ∀ s ∈ mergeShortFrom least carried done segments, s.Covers P := by
  induction segments generalizing carried done with
  | nil =>
    rw [reopen, List.append_nil] at htiles hcovers
    exact ⟨htiles, hcovers⟩
  | cons s rest ih =>
    rw [reopen] at htiles hcovers
    rw [mergeShortFrom.eq_def]
    simp only
    split
    · cases rest with
      | nil =>
        cases done with
        | nil => exact ⟨htiles, hcovers⟩
        | cons prev older =>
          -- the last run is short: its rows go to the segment before it
          simp only [List.isEmpty_nil, if_true]
          simp only [List.reverse_cons, List.append_assoc, List.cons_append, List.nil_append,
            List.map_append, List.map_cons, List.map_nil, tiles_append, Tiles, range,
            List.mem_append, List.mem_cons, List.not_mem_nil, or_false] at htiles hcovers ⊢
          obtain ⟨b, holder, hprev, hprevle, hnext, hle, hbound⟩ := htiles
          refine ⟨⟨b, holder, hprev, by omega, hbound⟩, fun t ht => ?_⟩
          rcases ht with ht | rfl
          · exact hcovers t (.inl ht)
          · exact (hcovers prev (.inr (.inl rfl))).widen (le_refl _) (by omega)
      | cons t rest =>
        -- a short run before another segment: its rows are carried there
        simp only [List.isEmpty_cons, Bool.false_eq_true, if_false]
        apply ih
        · simp only [List.map_append, List.map_cons, tiles_append, Tiles, range, reopen,
            Option.getD_some] at htiles ⊢
          obtain ⟨b, hdone, hstart, hle, hnext, htle, hrest⟩ := htiles
          exact ⟨b, hdone, hstart, by omega, hrest⟩
        · intro r hr
          simp only [List.map_append, List.map_cons, tiles_append, Tiles, range] at htiles
          obtain ⟨b, hdone, hstart, hle, hnext, htle, hrest⟩ := htiles
          rcases List.mem_append.mp hr with hr | hr
          · exact hcovers r (List.mem_append_left _ hr)
          · rcases List.mem_cons.mp hr with rfl | hr
            · have ht := hcovers t (by simp)
              exact ht.widen (by simp only [Option.getD_some]; omega) (le_refl _)
            · exact hcovers r (by simp [hr])
    · apply ih
      · simpa [reopen_none] using htiles
      · simpa [reopen_none] using hcovers

/-- The layout gives the rows of segments that are apart to each other. They are those read off the
root, or a run for the whole file if there are none. -/
theorem exists_laid (rules : Rules) (source : String) (maxLines minLines : Nat) {root : Node}
    (hrows : ∀ n ∈ root.namedChildren, n.start.row ≤ n.lastRow ∧ n.lastRow ≤ last)
    (hP : ∀ n ∈ root.namedChildren, ∀ before d, rules.definition? source n = some d →
      P ⟨n, before, d⟩) :
    ∃ all, layout rules source maxLines minLines last root = mergeShort minLines (tile last 0 all) ∧
      all ≠ [] ∧ Laid P last all.reverse ∧ (all = segmentsOf rules source maxLines root ∨
        segmentsOf rules source maxLines root = [] ∧ all = [⟨.statements, 0, last⟩]) := by
  have hlaid := laid_segmentsOf maxLines hrows hP
  rw [layout]
  generalize segmentsOf rules source maxLines root = found at hlaid ⊢
  cases found with
  | nil =>
    refine ⟨_, rfl, by simp, ?_, .inr ⟨rfl, rfl⟩⟩
    exact Laid.nil.push (by simp) ⟨Nat.zero_le _, le_refl _, covers_statements _ _⟩
  | cons s rest => exact ⟨s :: rest, rfl, by simp, hlaid, .inl rfl⟩

/-- The segments of a file tile its rows up to `last`, and each definition keeps its rows. -/
theorem layout_tiles (maxLines minLines : Nat) {root : Node}
    (hrows : ∀ n ∈ root.namedChildren, n.start.row ≤ n.lastRow ∧ n.lastRow ≤ last)
    (hP : ∀ n ∈ root.namedChildren, ∀ before d, rules.definition? source n = some d →
      P ⟨n, before, d⟩) :
    Tiles 0 (last + 1) ((layout rules source maxLines minLines last root).map range) ∧
      ∀ s ∈ layout rules source maxLines minLines last root, s.Covers P := by
  obtain ⟨all, hlayout, hne, hlaid, -⟩ := exists_laid rules source maxLines minLines hrows hP
  obtain ⟨htiles, hcovers⟩ := tiles_tile hne (fun s _ => Nat.zero_le s.start) hlaid
  rw [hlayout, mergeShort]
  exact tiles_mergeShortFrom (by simpa [reopen_none] using htiles) (by simpa [reopen_none] using hcovers)

end Segment

end SourceIndex
