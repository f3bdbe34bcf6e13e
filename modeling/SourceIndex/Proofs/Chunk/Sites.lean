import Mathlib
import SourceIndex.Proofs.Chunk.Tiling

/-! # The definitions at the top of a file

The definitions that get a segment of their own are those that begin on a row after all nodes before
them (`Segment.sites_layout`). Closing gaps and moving borders loses none of them, and it leaves no
short run beside another segment (`Segment.size_layout`).
-/

set_option autoImplicit false

namespace SourceIndex

/-- The definition at a node of the top, if the node begins on a row after those of all nodes before
it that are no comments or attributes. -/
def topSite? (rules : Rules) (source : String) : Node × List Node → Option Site
  | (n, before) =>
    if before.all fun m => rules.isTrivia m || m.lastRow < n.start.row then
      (rules.definition? source n).map fun d => ⟨n, before, d⟩
    else none

/-- The definitions at the top of a file that begin on a row of their own. -/
def topSites (rules : Rules) (source : String) (root : Node) : List Site :=
  (Node.withBefore [] root.namedChildren).filterMap (topSite? rules source)

/-- A definition at the top is found at a node right below the root. -/
theorem mem_topSites {rules : Rules} {source : String} {root : Node} {site : Site}
    (h : site ∈ topSites rules source root) : site.outer ∈ root.namedChildren ∧
      rules.definition? source site.outer = some site.definition := by
  obtain ⟨⟨n, before⟩, hentry, hsite⟩ := List.mem_filterMap.mp h
  obtain ⟨-, hsite⟩ := Option.ite_none_right_eq_some.mp hsite
  obtain ⟨d, hd, rfl⟩ := Option.map_eq_some_iff.mp hsite
  exact ⟨Segment.mem_of_mem_withBefore hentry, hd⟩

namespace Segment

/-- The definition of a segment, if it is no run of statements. -/
def site? (s : Segment) : Option Site :=
  match s.piece with
  | .definition site => some site
  | .statements => none

theorem piece_of_site? {s : Segment} {site : Site} (h : s.site? = some site) :
    s.piece = .definition site := by
  rw [site?] at h
  split at h
  · rename_i other hother
    rw [hother, Option.some.inj h]
  · cases h

variable {rules : Rules} {source : String} {n : Node} {before : List Node} {done segments : List Segment}

/-! ## Reading segments off the root -/

theorem forall_mem_head?_cons {p : Segment → Prop} {s : Segment} :
    (∀ t ∈ (s :: done).head?, p t) ↔ p s := by
  simp

/-- The rows after the last of the segments `done` are those after all nodes passed, comments and
attributes not counted. -/
def Reaches (rules : Rules) (before : List Node) (done : List Segment) : Prop :=
  ∀ row, (∀ m ∈ before, rules.isTrivia m = true ∨ m.lastRow < row) ↔ ∀ s ∈ done.head?, s.stop < row

theorem Reaches.trivia (h : Reaches rules before done) (hn : rules.isTrivia n = true) :
    Reaches rules (n :: before) done := by
  intro row
  rw [← h row]
  simp [hn]

/-- After a node that counts, the last segment ends with the later one of its last row and the rows
before. -/
theorem Reaches.extend (h : Reaches rules before done) (hn : rules.isTrivia n = false)
    (hrows : n.start.row ≤ n.lastRow) (maxLines : Nat) :
    Reaches rules (n :: before) (extend rules source maxLines done n before) := by
  intro row
  rw [List.forall_mem_cons, h row]
  simp only [hn, Bool.false_eq_true, false_or]
  cases done with
  | nil =>
    simp only [Segment.extend]
    cases rules.definition? source n <;> simp
  | cons prev rest =>
    simp only [Segment.extend]
    by_cases hrow : n.start.row ≤ prev.stop
    · rw [if_pos hrow]
      simp only [forall_mem_head?_cons]
      omega
    · -- a definition begins a segment, and another node begins one or goes on with the last run
      rw [if_neg hrow]
      cases rules.definition? source n with
      | some d =>
        simp only [forall_mem_head?_cons]
        omega
      | none =>
        simp only
        split <;> simp only [forall_mem_head?_cons] <;> omega

/-- A node adds its definition to the segments if it begins on a row of its own. -/
theorem sites_extend (h : Reaches rules before done) (maxLines : Nat) :
    (extend rules source maxLines done n before).filterMap site? =
      (topSite? rules source (n, before)).toList ++ done.filterMap site? := by
  have hfree : (before.all fun m => rules.isTrivia m || m.lastRow < n.start.row) = true ↔
      ∀ s ∈ done.head?, s.stop < n.start.row := by
    rw [← h n.start.row]
    simp
  rw [topSite?]
  cases done with
  | nil =>
    rw [if_pos (hfree.mpr (by simp))]
    simp only [Segment.extend]
    cases rules.definition? source n <;> rfl
  | cons prev rest =>
    rw [forall_mem_head?_cons] at hfree
    simp only [Segment.extend]
    by_cases hrow : n.start.row ≤ prev.stop
    · -- on a row of the last segment the node joins it, whatever is defined there
      rw [if_pos hrow, if_neg (mt hfree.mp (Nat.not_lt.mpr hrow))]
      rfl
    · rw [if_neg hrow, if_pos (hfree.mpr (Nat.lt_of_not_le hrow))]
      cases rules.definition? source n with
      | some d => rfl
      | none =>
        simp only
        split <;> rfl

/-- Reading nodes adds their definitions to the segments, the last one in front. -/
theorem sites_foldl (maxLines : Nat)
    (htrivia : ∀ n d, rules.definition? source n = some d → rules.isTrivia n = false) {ns : List Node}
    (hrows : ∀ n ∈ ns, n.start.row ≤ n.lastRow) (h : Reaches rules before done) :
    ((Node.withBefore before ns).foldl (fun done (n, before) =>
        if rules.isTrivia n then done else extend rules source maxLines done n before)
      done).filterMap site? =
      ((Node.withBefore before ns).filterMap (topSite? rules source)).reverse ++
        done.filterMap site? := by
  induction ns generalizing before done with
  | nil => rfl
  | cons n ns ih =>
    obtain ⟨hn, hns⟩ := List.forall_mem_cons.mp hrows
    rw [Node.withBefore, List.foldl_cons]
    simp only
    by_cases htriv : rules.isTrivia n = true
    · -- no definition is found at a comment or an attribute
      have hnone : topSite? rules source (n, before) = none := by
        cases hd : rules.definition? source n with
        | none => simp [topSite?, hd]
        | some d => simp [htrivia n d hd] at htriv
      rw [if_pos htriv, ih hns (h.trivia htriv), List.filterMap_cons_none hnone]
    · have hextend : Reaches rules (n :: before) (extend rules source maxLines done n before) :=
        h.extend (Bool.eq_false_iff.mpr htriv) hn maxLines
      rw [if_neg htriv, ih hns hextend, sites_extend h maxLines, List.filterMap_cons]
      cases topSite? rules source (n, before) <;> simp

/-- The segments read off the root have the definitions that begin on rows of their own. -/
theorem sites_segmentsOf {root : Node} (maxLines : Nat)
    (htrivia : ∀ n d, rules.definition? source n = some d → rules.isTrivia n = false)
    (hrows : ∀ n ∈ root.namedChildren, n.start.row ≤ n.lastRow) :
    (segmentsOf rules source maxLines root).filterMap site? = topSites rules source root := by
  have hstart : Reaches rules [] [] := fun row => by simp
  rw [segmentsOf, List.filterMap_reverse, sites_foldl maxLines htrivia hrows hstart,
    List.filterMap_nil, List.append_nil, List.reverse_reverse, topSites]

/-! ## Closing gaps and moving borders -/

theorem sites_tile (last first : Nat) (segments : List Segment) :
    (tile last first segments).filterMap site? = segments.filterMap site? := by
  induction segments generalizing first with
  | nil => rfl
  | cons s rest ih =>
    cases rest with
    | nil => rfl
    | cons t rest =>
      rw [tile, List.filterMap_cons, List.filterMap_cons, ih]
      rfl

/-- Only runs give their rows away. -/
theorem sites_mergeShortFrom (least : Nat) (carried : Option Nat) (done segments : List Segment) :
    (mergeShortFrom least carried done segments).filterMap site? =
      done.reverse.filterMap site? ++ segments.filterMap site? := by
  induction segments generalizing carried done with
  | nil => simp [mergeShortFrom]
  | cons s rest ih =>
    rw [mergeShortFrom.eq_def]
    simp only
    by_cases hshort : (s.piece.isStatements &&
        decide (size { s with start := carried.getD s.start } < least)) = true
    · have hnone : s.site? = none := by
        rw [site?]
        cases hpiece : s.piece with
        | statements => rfl
        | definition site => simp [hpiece, Piece.isStatements] at hshort
      rw [if_pos hshort, List.filterMap_cons_none hnone]
      cases rest with
      | nil =>
        cases done with
        | nil =>
          simp only [List.isEmpty_nil, if_true, List.reverse_nil, List.filterMap_nil, List.nil_append]
          rw [List.filterMap_cons_none (by exact hnone)]
          rfl
        | cons prev older =>
          simp [List.filterMap_append, List.filterMap_cons, site?]
      | cons t rest =>
        simp only [List.isEmpty_cons, Bool.false_eq_true, if_false]
        rw [ih]
    · have hkeep : site? { s with start := carried.getD s.start } = s.site? := rfl
      rw [if_neg hshort, ih, List.reverse_cons, List.filterMap_append, List.append_assoc,
        List.filterMap_cons, List.filterMap_cons, List.filterMap_nil, hkeep]
      cases s.site? <;> rfl

/-- Where segments end one after the other, the ones that are left are long enough or alone, runs of
statements at least. -/
theorem size_mergeShortFrom {least : Nat} {carried : Option Nat}
    (hstops : (done.reverse ++ segments).Pairwise fun s t => s.stop ≤ t.stop)
    (hdone : ∀ s ∈ done, s.site? = none → least ≤ s.size) :
    (∀ s ∈ mergeShortFrom least carried done segments, s.site? = none → least ≤ s.size) ∨
      ∃ s, mergeShortFrom least carried done segments = [s] := by
  induction segments generalizing carried done with
  | nil =>
    rw [mergeShortFrom]
    exact .inl fun s hs => hdone s (List.mem_reverse.mp hs)
  | cons s rest ih =>
    rw [mergeShortFrom.eq_def]
    simp only
    by_cases hshort : (s.piece.isStatements &&
        decide (size { s with start := carried.getD s.start } < least)) = true
    · rw [if_pos hshort]
      cases rest with
      | nil =>
        cases done with
        | nil => exact .inr ⟨_, rfl⟩
        | cons prev older =>
          -- the segment before the last run only grows
          have hgrows : prev.stop ≤ s.stop :=
            (List.pairwise_append.mp hstops).2.2 prev (by simp) s (List.mem_singleton_self s)
          simp only [List.isEmpty_nil, if_true]
          refine .inl fun t ht hnone => ?_
          rcases List.mem_cons.mp (List.mem_reverse.mp ht) with rfl | ht
          · have hprev := hdone prev List.mem_cons_self hnone
            simp only [size] at hprev ⊢
            omega
          · exact hdone t (List.mem_cons_of_mem prev ht) hnone
      | cons t rest =>
        simp only [List.isEmpty_cons, Bool.false_eq_true, if_false]
        refine ih (hstops.sublist ?_) hdone
        exact (List.sublist_cons_self _ _).append_left _
    · rw [if_neg hshort]
      refine ih ?_ fun t ht hnone => ?_
      · rw [List.reverse_cons, List.append_assoc]
        rw [List.pairwise_append] at hstops ⊢
        simpa using hstops
      · rcases List.mem_cons.mp ht with rfl | ht
        · -- a run that is kept is not short
          have hpiece : s.piece.isStatements = true := by
            cases hp : s.piece with
            | statements => rfl
            | definition site => simp [site?, hp] at hnone
          simpa [hpiece] using hshort
        · exact hdone t ht hnone

/-! ## Layouts -/

variable {last : Nat} {root : Node}

/-- The segments of a file have the definitions that begin on rows of their own, in order. -/
theorem sites_layout (maxLines minLines : Nat)
    (htrivia : ∀ n d, rules.definition? source n = some d → rules.isTrivia n = false)
    (hrows : ∀ n ∈ root.namedChildren, n.start.row ≤ n.lastRow ∧ n.lastRow ≤ last) :
    (layout rules source maxLines minLines last root).filterMap site? = topSites rules source root := by
  obtain ⟨all, hlayout, -, -, hall⟩ := exists_laid (P := fun _ => True) rules source maxLines minLines
    hrows fun _ _ _ _ _ => trivial
  have hsites := sites_segmentsOf maxLines htrivia fun n hn => (hrows n hn).1
  rw [hlayout, mergeShort, sites_mergeShortFrom, sites_tile, ← hsites]
  rcases hall with rfl | ⟨hnone, rfl⟩
  · rfl
  · rw [hnone]
    rfl

/-- A run of a layout has as many rows as asked for, or it is the only segment. -/
theorem size_layout (maxLines minLines : Nat)
    (hrows : ∀ n ∈ root.namedChildren, n.start.row ≤ n.lastRow ∧ n.lastRow ≤ last) :
    (∀ s ∈ layout rules source maxLines minLines last root, s.site? = none → minLines ≤ s.size) ∨
      ∃ s, layout rules source maxLines minLines last root = [s] := by
  obtain ⟨all, hlayout, hne, hlaid, -⟩ := exists_laid (P := fun _ => True) rules source maxLines
    minLines hrows fun _ _ _ _ _ => trivial
  obtain ⟨htiles, -⟩ := tiles_tile hne (fun s _ => Nat.zero_le s.start) hlaid
  rw [hlayout, mergeShort]
  refine size_mergeShortFrom ?_ fun s hs => by cases hs
  refine (List.pairwise_map.mp htiles.pairwise).imp_of_mem fun {s t} _ ht hst => ?_
  have hle := (htiles.le_of_mem (List.mem_map_of_mem ht)).2
  simp only [range] at hst hle
  omega

end Segment

end SourceIndex
