import Mathlib
import SourceIndex.Proofs.Chunk.Nesting

/-! # The nodes of planned children

A child that is planned for a definition has roots: the outermost node of a nested definition, or the
statements of a window. The roots of all children are named children of one node in the definition, in
their order (`Child.exists_roots_planChildren`): of its body, or of the node that holds the statements
of the body.
-/

set_option autoImplicit false

namespace SourceIndex

namespace Child

variable {outer : Node} {rules : Rules} {source : String}

/-- The nodes that belong to a child. -/
def roots : Child outer → List Node
  | .definition site _ _ _ => [site.outer]
  | .window statements _ _ => statements

theorem nodeIds_eq (c : Child outer) : c.nodeIds = c.roots.map fun n => n.id := by
  cases c <;> rfl

theorem flatMap_nodeIds (cs : List (Child outer)) :
    cs.flatMap nodeIds = (cs.flatMap roots).map fun n => n.id := by
  rw [List.map_flatMap]
  exact List.flatMap_congr fun c _ => nodeIds_eq c

/-- A node of a body adds the definition that is found there, or nothing: it may be a comment, begin on
a row that is taken, or define nothing. -/
theorem nestedFrom_cons {before : List Node} {lead : Option Nat} {floor : Nat} {n : Node}
    {ns : List Node} (inside : ∀ m ∈ n :: ns, sizeOf m < sizeOf outer) :
    ∃ lead' floor', ∃ rest, rest = nestedFrom rules source outer (n :: before) lead' floor' ns
        (fun m hm => inside m (List.mem_cons_of_mem n hm)) ∧
      (nestedFrom rules source outer before lead floor (n :: ns) inside = rest ∨
        ∃ d first, rules.definition? source n = some d ∧
          nestedFrom rules source outer before lead floor (n :: ns) inside =
            .definition ⟨n, before, d⟩ (inside n List.mem_cons_self) first n.lastRow :: rest) := by
  rw [nestedFrom]
  simp only
  split
  · exact ⟨_, _, _, rfl, .inl rfl⟩
  · refine ⟨none, max floor (n.lastRow + 1), _, rfl, ?_⟩
    split
    · exact .inl rfl
    · split
      · exact .inl rfl
      · rename_i d hd
        exact .inr ⟨d, _, hd, rfl⟩

/-- Nested definitions are found at some of the nodes of a body, in their order. -/
theorem roots_nestedFrom {before : List Node} {lead : Option Nat} {floor : Nat} {ns : List Node}
    (inside : ∀ m ∈ ns, sizeOf m < sizeOf outer) :
    ((nestedFrom rules source outer before lead floor ns inside).flatMap roots).Sublist ns := by
  induction ns generalizing before lead floor with
  | nil => exact List.Sublist.refl _
  | cons n ns ih =>
    obtain ⟨lead', floor', rest, rfl, heq | ⟨d, first, -, heq⟩⟩ := nestedFrom_cons inside
    · rw [heq]
      exact (ih _).cons n
    · rw [heq]
      exact (ih _).cons_cons n

/-- Nested definitions are what the rules find. -/
theorem found_nestedFrom {before : List Node} {lead : Option Nat} {floor : Nat} {ns : List Node}
    (inside : ∀ m ∈ ns, sizeOf m < sizeOf outer) {site : Site} {hsite : sizeOf site.outer < sizeOf outer}
    {start stop : Nat}
    (h : .definition site hsite start stop ∈ nestedFrom rules source outer before lead floor ns inside) :
    rules.definition? source site.outer = some site.definition := by
  induction ns generalizing before lead floor with
  | nil => cases h
  | cons n ns ih =>
    obtain ⟨lead', floor', rest, rfl, heq | ⟨d, first, hd, heq⟩⟩ := nestedFrom_cons inside
    · exact ih _ (heq ▸ h)
    · rw [heq] at h
      rcases List.mem_cons.mp h with hsame | h
      · cases hsame
        exact hd
      · exact ih _ h

/-- The windows of statements hold all of them, in their order. -/
theorem flatMap_statementRuns (maxLines : Nat) (statements : List Node) :
    (statementRuns maxLines statements).flatMap (fun w => w.1) = statements := by
  have hadd : ∀ (done : List (List Node × Nat × Nat)) (n : Node),
      (addStatement maxLines done n).reverse.flatMap (fun w => w.1.reverse) =
        done.reverse.flatMap (fun w => w.1.reverse) ++ [n] := by
    intro done n
    cases done with
    | nil => rfl
    | cons w rest =>
      obtain ⟨ns, start, stop⟩ := w
      simp only [addStatement]
      split <;> simp
  have hfold : ∀ (done : List (List Node × Nat × Nat)) (ns : List Node),
      (ns.foldl (addStatement maxLines) done).reverse.flatMap (fun w => w.1.reverse) =
        done.reverse.flatMap (fun w => w.1.reverse) ++ ns := by
    intro done ns
    induction ns generalizing done with
    | nil => simp
    | cons n ns ih => rw [List.foldl_cons, ih, hadd, List.append_assoc, List.singleton_append]
  rw [statementRuns, ← List.map_reverse, List.flatMap_map]
  exact hfold [] statements

theorem roots_statementWindows (maxLines : Nat) (body : Node) :
    (statementWindows outer maxLines body).flatMap roots = (statementContainer body).namedChildren := by
  rw [statementWindows, List.flatMap_map]
  exact flatMap_statementRuns maxLines _

/-- The children of a definition are at some of the named children of one node in it. -/
theorem exists_roots_planChildren {d : Definition outer} (hbody : d.BodyInside) (maxLines : Nat) :
    ∃ b ∈ outer.nodes,
      ((planChildren rules source maxLines d).flatMap roots).Sublist b.namedChildren := by
  have hnested : ∃ b ∈ outer.nodes,
      ((nestedDefinitions rules source d).flatMap roots).Sublist b.namedChildren := by
    rw [nestedDefinitions]
    split
    · exact ⟨outer, outer.mem_nodes_self, List.nil_sublist _⟩
    · rename_i body hsome
      exact ⟨body, hbody body hsome, roots_nestedFrom _⟩
  rw [planChildren]
  split
  · split
    · exact ⟨outer, outer.mem_nodes_self, List.nil_sublist _⟩
    · rename_i body hsome
      simp only
      split
      · refine ⟨statementContainer body, ?_, ?_⟩
        · exact Node.mem_nodes_trans (hbody body hsome) (statementContainer_mem_nodes body)
        · rw [roots_statementWindows]
      · exact ⟨outer, outer.mem_nodes_self, List.nil_sublist _⟩
  · exact hnested

theorem found_planChildren {d : Definition outer} {maxLines : Nat} {site : Site}
    {hsite : sizeOf site.outer < sizeOf outer} {start stop : Nat}
    (h : .definition site hsite start stop ∈ planChildren rules source maxLines d) :
    rules.definition? source site.outer = some site.definition := by
  rw [planChildren] at h
  split at h
  · split at h
    · cases h
    · simp only at h
      split at h
      · -- a window is no definition
        simp [statementWindows] at h
      · cases h
  · rw [nestedDefinitions] at h
    split at h
    · cases h
    · exact found_nestedFrom _ h

end Child

end SourceIndex
