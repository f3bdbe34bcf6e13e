import Mathlib
import SourceIndex.Chunk.Split
import SourceIndex.Proofs.Syntax.Body

/-! # The children of a definition

The children that are planned for a definition lie on its rows, one after the other
(`Site.IsFound.planned_planChildren`). A nested definition is widened upwards over the comments
above it, but never beyond the first row of the body or the last row of the node before it.
-/

set_option autoImplicit false

namespace SourceIndex

/-- A definition that the rules find at a named node of a tree of the text. -/
structure Site.IsFound (rules : Rules) (source : String) (site : Site) : Prop where
  found : rules.definition? source site.outer = some site.definition
  wellFormed : site.outer.WellFormed source
  named : site.outer.named = true

/-- Named nodes below a named node lie on its rows. -/
theorem Node.WellFormed.rows_named {source : String} {n m : Node} (h : n.WellFormed source)
    (hn : n.named = true) (hm : m ∈ n.nodes) {k : Node} (hk : k ∈ m.namedChildren) :
    n.start.row ≤ k.start.row ∧ k.start.row ≤ k.lastRow ∧ k.lastRow ≤ n.lastRow := by
  have hmem : k ∈ n.nodes := mem_nodes_trans hm (child_mem_nodes (mem_of_mem_named hk))
  have hnamed := named_of_mem_named hk
  have hrows := h.rows_of_mem hn hmem hnamed
  exact ⟨hrows.1, ((h.of_mem hmem).rows hnamed).1, hrows.2⟩

namespace Child

variable {outer : Node} {P : Site → Prop} {rules : Rules} {source : String} {first last : Nat}

/-- The child lies on the rows from `first` to `last`, which include those of its definition. -/
structure Fits (P : Site → Prop) (first last : Nat) (c : Child outer) : Prop where
  first_le : first ≤ c.start
  start_le : c.start ≤ c.stop
  le_last : c.stop ≤ last
  covers : ∀ site inside start stop, c = .definition site inside start stop →
    P site ∧ start ≤ site.outer.start.row ∧ site.outer.lastRow ≤ stop

/-- Children apart from each other on the rows from `first` to `last`. -/
structure Planned (P : Site → Prop) (first last : Nat) (cs : List (Child outer)) : Prop where
  apart : cs.Pairwise fun c d => c.stop < d.start
  fits : ∀ c ∈ cs, c.Fits P first last

theorem Planned.nil : Planned P first last ([] : List (Child outer)) :=
  ⟨List.Pairwise.nil, by simp⟩

theorem Planned.mono {cs : List (Child outer)} (h : Planned P first last cs) {first' : Nat}
    (hle : first' ≤ first) : Planned P first' last cs where
  apart := h.apart
  fits c hc :=
    have hfits := h.fits c hc
    { hfits with first_le := hle.trans hfits.first_le }

/-! ## Nested definitions -/

/-- Nested definitions begin at the floor at least. -/
theorem planned_nestedFrom {before : List Node} {lead : Option Nat} {floor : Nat} {ns : List Node}
    (inside : ∀ m ∈ ns, sizeOf m < sizeOf outer)
    (hrows : ∀ n ∈ ns, first ≤ n.start.row ∧ n.start.row ≤ n.lastRow ∧ n.lastRow ≤ last)
    (hlead : ∀ row, lead = some row → first ≤ row)
    (hP : ∀ n ∈ ns, ∀ before d, rules.definition? source n = some d → P ⟨n, before, d⟩) :
    Planned P (max first floor) last
      (nestedFrom rules source outer before lead floor ns inside) := by
  induction ns generalizing before lead floor with
  | nil => exact .nil
  | cons n ns ih =>
    obtain ⟨hfirst, hrange, hlast⟩ := hrows n List.mem_cons_self
    have hrest := fun m hm => hrows m (List.mem_cons_of_mem n hm)
    have hPrest := fun m hm => hP m (List.mem_cons_of_mem n hm)
    have insideRest := fun m hm => inside m (List.mem_cons_of_mem n hm)
    have hleadRow : first ≤ lead.getD n.start.row := by
      cases hl : lead with
      | none => exact hfirst
      | some row => exact hlead row hl
    rw [nestedFrom]
    simp only
    by_cases htrivia : rules.isTrivia n = true
    · -- a comment or an attribute may only be where the next child begins
      rw [if_pos htrivia]
      refine ih insideRest hrest (fun row hrow => ?_) hPrest
      obtain rfl := Option.some.inj hrow
      exact hleadRow
    · rw [if_neg htrivia]
      have hnext := @ih (n :: before) none (max floor (n.lastRow + 1)) insideRest hrest
        (fun row hrow => by cases hrow) hPrest
      have hlater : max first floor ≤ max first (max floor (n.lastRow + 1)) := by omega
      have hweak := hnext.mono hlater
      by_cases hfloor : n.start.row < floor
      · rw [if_pos hfloor]
        exact hweak
      · rw [if_neg hfloor]
        cases hd : rules.definition? source n with
        | none => exact hweak
        | some d =>
          constructor
          · refine List.pairwise_cons.mpr ⟨fun c hc => ?_, hnext.apart⟩
            have hafter := (hnext.fits c hc).first_le
            simp only [stop]
            omega
          · intro c hc
            rcases List.mem_cons.mp hc with rfl | hc
            · refine ⟨?_, ?_, hlast, ?_⟩
              · simp only [start]
                omega
              · simp only [start, stop]
                omega
              · intro site inside' start' stop' hchild
                cases hchild
                exact ⟨hP n List.mem_cons_self before d hd, by simp only; omega, le_refl _⟩
            · exact hweak.fits c hc

/-! ## Statement windows -/

/-- Windows apart from each other on the rows from `first` to `last`, the last one first. -/
structure Windowed (first last : Nat) (done : List (List Node × Nat × Nat)) : Prop where
  apart : done.Pairwise fun w v => v.2.2 < w.2.1
  each : ∀ w ∈ done, first ≤ w.2.1 ∧ w.2.1 ≤ w.2.2 ∧ w.2.2 ≤ last

/-- One more statement keeps the windows apart. -/
theorem Windowed.addStatement {done : List (List Node × Nat × Nat)} (h : Windowed first last done)
    (maxLines : Nat) {n : Node}
    (hrows : first ≤ n.start.row ∧ n.start.row ≤ n.lastRow ∧ n.lastRow ≤ last) :
    Windowed first last (addStatement maxLines done n) := by
  cases done with
  | nil =>
    rw [Child.addStatement]
    exact ⟨List.pairwise_singleton _ _, by simpa using hrows⟩
  | cons w rest =>
    obtain ⟨statements, start, stop⟩ := w
    obtain ⟨hbefore, hapart⟩ := List.pairwise_cons.mp h.apart
    have hwindow := h.each _ List.mem_cons_self
    have hrest : ∀ v ∈ rest, first ≤ v.2.1 ∧ v.2.1 ≤ v.2.2 ∧ v.2.2 ≤ last := fun v hv =>
      h.each v (List.mem_cons_of_mem _ hv)
    simp only at hbefore hwindow
    simp only [Child.addStatement]
    split
    · -- the last window grows downwards only
      refine ⟨List.pairwise_cons.mpr ⟨hbefore, hapart⟩, fun v hv => ?_⟩
      rcases List.mem_cons.mp hv with rfl | hv
      · simp only
        omega
      · exact hrest v hv
    · -- a new window begins after the last row of the window before it
      refine ⟨List.pairwise_cons.mpr ⟨fun v hv => ?_, h.apart⟩, fun v hv => ?_⟩
      · rcases List.mem_cons.mp hv with rfl | hv
        · simp only
          omega
        · have := hbefore v hv
          simp only
          omega
      · rcases List.mem_cons.mp hv with rfl | hv
        · exact hrows
        · exact h.each v hv

theorem planned_statementWindows (maxLines : Nat) {body : Node}
    (hrows : ∀ n ∈ (statementContainer body).namedChildren,
      first ≤ n.start.row ∧ n.start.row ≤ n.lastRow ∧ n.lastRow ≤ last) :
    Planned P first last (statementWindows outer maxLines body) := by
  have hwindowed : Windowed first last
      ((statementContainer body).namedChildren.foldl (addStatement maxLines) []) := by
    refine List.foldlRecOn _ _ ⟨List.Pairwise.nil, by simp⟩ fun done hdone n hn => ?_
    exact hdone.addStatement maxLines (hrows n hn)
  rw [statementWindows, statementRuns]
  constructor
  · rw [List.pairwise_map, List.pairwise_reverse, List.pairwise_map]
    exact hwindowed.apart
  · intro c hc
    simp only [List.mem_map, List.mem_reverse] at hc
    obtain ⟨w, ⟨v, hv, rfl⟩, rfl⟩ := hc
    obtain ⟨hfirst, hrange, hlast⟩ := hwindowed.each v hv
    refine ⟨hfirst, hrange, hlast, fun site inside start stop hchild => ?_⟩
    cases hchild

/-- The node that holds the statements of a body is the body or a node below it. -/
theorem statementContainer_mem_nodes (n : Node) : statementContainer n ∈ n.nodes := by
  rw [statementContainer]
  split
  · rename_i only honly
    have hchild : only ∈ n.namedChildren := honly ▸ List.mem_singleton_self only
    split
    · exact Node.mem_nodes_of_child (Node.mem_of_mem_named hchild)
        (statementContainer_mem_nodes only)
    · exact n.mem_nodes_self
  · exact n.mem_nodes_self
termination_by sizeOf n
decreasing_by exact Node.sizeOf_lt_of_mem_named hchild

end Child

/-! ## Plans -/

/-- The children of a definition lie on its rows, one after the other. -/
theorem Site.IsFound.planned_planChildren {rules : Rules} {source : String} {site : Site}
    (h : site.IsFound rules source) (hrules : rules.BodyInside) (maxLines : Nat) :
    Child.Planned (Site.IsFound rules source) site.outer.start.row site.outer.lastRow
      (Child.planChildren rules source maxLines site.definition) := by
  have hbody := hrules source site.outer site.definition h.found
  have hfound : ∀ {m n}, m ∈ site.outer.nodes → n ∈ m.namedChildren → ∀ before d,
      rules.definition? source n = some d → Site.IsFound rules source ⟨n, before, d⟩ := by
    intro m n hm hn before d hd
    have hmem := Node.mem_nodes_trans hm (Node.child_mem_nodes (Node.mem_of_mem_named hn))
    exact ⟨hd, h.wellFormed.of_mem hmem, Node.named_of_mem_named hn⟩
  have hnested : Child.Planned (Site.IsFound rules source) site.outer.start.row site.outer.lastRow
      (Child.nestedDefinitions rules source site.definition) := by
    rw [Child.nestedDefinitions]
    split
    · exact .nil
    · rename_i body hsome
      have hinside := hbody body hsome
      refine (Child.planned_nestedFrom _ (fun n hn => h.wellFormed.rows_named h.named hinside hn)
        (fun row hrow => by cases hrow) fun n hn => hfound hinside hn).mono ?_
      exact le_max_left _ _
  rw [Child.planChildren]
  split
  · split
    · exact .nil
    · rename_i body hsome
      simp only
      split
      · have hinside := Node.mem_nodes_trans (hbody body hsome)
          (Child.statementContainer_mem_nodes body)
        exact Child.planned_statementWindows maxLines fun n hn =>
          h.wellFormed.rows_named h.named hinside hn
      · exact .nil
  · exact hnested

end SourceIndex
