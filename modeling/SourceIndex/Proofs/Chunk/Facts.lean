import Mathlib
import SourceIndex.Proofs.Syntax.Walk
import SourceIndex.Chunk.Facts

/-! # The scan for imports and definitions

The scan of a file keeps the nodes ahead of it on a stack and takes them from its top. From a tree on
the stack it goes through the walk of that tree and leaves what was below it on the stack
(`FactScan.meets_walk`), so it meets the nodes in pre-order, each one once, and nothing below an
import.

What it finds is compared with what a tree contains: `Node.lineages` lists every node of a tree with
the nodes around it, without any stack, and `FileFacts.Describe` says which of them are imports and
definitions that count (`FileFacts.ofTree_describe`).
-/

set_option autoImplicit false

namespace SourceIndex

namespace Node

/-! ## Nodes with the nodes around them -/

variable {sees : Node → Bool}

/-- The nodes of a tree in pre-order, each with the nodes around it, the nearest one first. Only
children that are seen belong to the tree, and `above` are the nodes around its root. -/
def lineages (sees : Node → Bool) (above : List Node) (n : Node) : List (Node × List Node) :=
  (n, above) :: (n.children.filter sees).attach.flatMap fun ⟨m, _⟩ => lineages sees (n :: above) m
termination_by sizeOf n
decreasing_by exact sizeOf_lt_of_mem (List.mem_filter.mp (by assumption)).1

theorem lineages_eq (sees : Node → Bool) (above : List Node) (n : Node) :
    n.lineages sees above =
      (n, above) :: (n.children.filter sees).flatMap (lineages sees (n :: above)) := by
  rw [lineages]
  simp [List.flatMap_subtype]

/-- The nodes around the root are around every node. -/
theorem subset_of_mem_lineages {n : Node} {above : List Node} {l : Node × List Node}
    (h : l ∈ n.lineages sees above) : above ⊆ l.2 := by
  rw [lineages_eq] at h
  rcases List.mem_cons.mp h with rfl | h
  · exact List.Subset.refl _
  · obtain ⟨m, hm, hl⟩ := List.mem_flatMap.mp h
    exact List.Subset.trans (List.subset_cons_self n above) (subset_of_mem_lineages hl)
termination_by sizeOf n
decreasing_by exact sizeOf_lt_of_mem (List.mem_filter.mp hm).1

theorem mem_nodes_of_mem_lineages {n : Node} {above : List Node} {l : Node × List Node}
    (h : l ∈ n.lineages sees above) : l.1 ∈ n.nodes := by
  rw [lineages_eq] at h
  rcases List.mem_cons.mp h with rfl | h
  · exact n.mem_nodes_self
  · obtain ⟨m, hm, hl⟩ := List.mem_flatMap.mp h
    have hchild := child_mem_nodes (List.mem_filter.mp hm).1
    exact mem_nodes_trans hchild (mem_nodes_of_mem_lineages hl)
termination_by sizeOf n
decreasing_by exact sizeOf_lt_of_mem (List.mem_filter.mp hm).1

/-- A walk meets the named nodes that lie in no node it stops at. -/
theorem walk_eq_lineages (stop : Node → Bool) (n : Node) (above : List Node)
    (h : above.any stop = false) :
    n.walk stop = ((n.lineages (·.named) above).filter fun l => !l.2.any stop).map (·.1) := by
  rw [lineages_eq, List.filter_cons_of_pos (by simp [h]), List.map_cons]
  cases hn : stop n with
  | true =>
    -- every node further down lies in `n`
    have hnone : (((n.children.filter (·.named)).flatMap (lineages (·.named) (n :: above))).filter
        fun l => !l.2.any stop) = [] := by
      refine List.filter_eq_nil_iff.mpr fun l hl => ?_
      obtain ⟨m, -, hl⟩ := List.mem_flatMap.mp hl
      have hmem : n ∈ l.2 := subset_of_mem_lineages hl List.mem_cons_self
      simpa using ⟨n, hmem, hn⟩
    rw [walk_of_stop hn, hnone, List.map_nil]
  | false =>
    rw [walk_of_go hn, List.filter_flatMap, List.map_flatMap]
    refine congrArg (n :: ·) (List.flatMap_congr fun m hm => ?_)
    exact walk_eq_lineages stop m (n :: above) (by rw [List.any_cons, hn, h, Bool.or_false])
termination_by sizeOf n
decreasing_by exact sizeOf_lt_of_mem_named hm

/-- What only named nodes can satisfy picks the same nodes among all nodes as among the named ones, if
no named node lies right below one without a name. -/
theorem filter_lineages_eq {n : Node} (p : Node × List Node → Bool) (above : List Node)
    (hbare : ∀ m ∈ n.nodes, m.named = false → m.namedChildren = [])
    (hp : ∀ m ∈ n.nodes, m.named = false → ∀ around, p (m, around) = false) :
    (n.lineages (fun _ => true) above).filter p = (n.lineages (·.named) above).filter p := by
  have hsub : ∀ {m}, m ∈ n.children → ∀ k ∈ m.nodes, k ∈ n.nodes := fun hm k hk =>
    mem_nodes_of_child hm hk
  -- below a child without a name nothing is picked
  have hnone : ∀ m ∈ n.children, m.named = false →
      (m.lineages (fun _ => true) (n :: above)).filter p = [] := by
    intro m hm hnamed
    refine List.filter_eq_nil_iff.mpr fun l hl => ?_
    have hl' := mem_nodes_of_mem_lineages hl
    have hbare' : l.1.named = false :=
      named_eq_false (fun k hk => hbare k (hsub hm k hk)) hnamed hl'
    rw [hp l.1 (hsub hm _ hl') hbare' l.2]
    exact Bool.false_ne_true
  have hsome : ∀ m ∈ n.children, (m.lineages (fun _ => true) (n :: above)).filter p =
      (m.lineages (·.named) (n :: above)).filter p := fun m hm =>
    filter_lineages_eq p (n :: above) (fun k hk => hbare k (hsub hm k hk)) fun k hk => hp k (hsub hm k hk)
  have htail : ∀ ms : List Node, ms ⊆ n.children →
      ms.flatMap (fun m => (m.lineages (fun _ => true) (n :: above)).filter p) =
        (ms.filter (·.named)).flatMap fun m => (m.lineages (·.named) (n :: above)).filter p := by
    intro ms hms
    induction ms with
    | nil => rfl
    | cons m ms ih =>
      obtain ⟨hm, hms⟩ := List.cons_subset.mp hms
      rw [List.flatMap_cons, ih hms, List.filter_cons]
      cases hnamed : m.named with
      | true => rw [if_pos rfl, List.flatMap_cons, hsome m hm]
      | false => rw [if_neg Bool.false_ne_true, hnone m hm hnamed, List.nil_append]
  rw [lineages_eq, lineages_eq, List.filter_cons, List.filter_cons, List.filter_flatMap,
    List.filter_flatMap, List.filter_true, htail n.children (List.Subset.refl _)]
termination_by sizeOf n
decreasing_by exact sizeOf_lt_of_mem hm

end Node

namespace FactScan

variable {rules : Rules} {source : String}

/-! ## Steps of the scan -/

/-- From one state the scan meets some nodes, one after the other, and reaches another state. -/
inductive Meets (rules : Rules) (source : String) : FactScan → List Node → FactScan → Prop where
  | nil (s : FactScan) : Meets rules source s [] s
  | cons {s t u : FactScan} {n : Node} {ns : List Node} (h : s.next? rules source = some (n, t))
      (hrest : Meets rules source t ns u) : Meets rules source s (n :: ns) u

theorem Meets.append {s t u : FactScan} {ns ms : List Node} (h : Meets rules source s ns t)
    (h' : Meets rules source t ms u) : Meets rules source s (ns ++ ms) u := by
  induction h with
  | nil s => exact h'
  | cons hnext _ ih => exact .cons hnext (ih h')

/-- The scan runs to its end through every state it reaches. -/
theorem Meets.run_eq {s t : FactScan} {ns : List Node} (h : Meets rules source s ns t) :
    s.run rules source = t.run rules source := by
  induction h with
  | nil s => rfl
  | @cons s t u n ns hnext _ ih =>
    rw [← ih, run]
    split
    · rename_i hnone
      rw [hnone] at hnext
      cases hnext
    · rename_i hsome
      rw [hsome] at hnext
      cases hnext
      rfl

theorem run_nil (facts : FileFacts) : run rules source ⟨[], facts⟩ = facts := by
  rw [run]
  rfl

/-- From a tree on top of the stack the scan goes through the walk of the tree. -/
theorem meets_walk (n : Node) (rest : List Node) (facts : FileFacts) :
    Meets rules source ⟨n :: rest, facts⟩ (n.walk rules.isImport)
      ⟨rest, (n.walk rules.isImport).foldl (FileFacts.see rules source) facts⟩ := by
  cases hn : rules.isImport n with
  | true =>
    have hnext : next? rules source ⟨n :: rest, facts⟩ =
        some (n, ⟨rest, facts.see rules source n⟩) := by
      simp [next?, below, hn]
    rw [Node.walk_of_stop hn, List.foldl_cons, List.foldl_nil]
    exact .cons hnext (.nil _)
  | false =>
    have hnext : next? rules source ⟨n :: rest, facts⟩ =
        some (n, ⟨n.namedChildren ++ rest, facts.see rules source n⟩) := by
      simp [next?, below, hn, push_reverse]
    -- the children lie on the stack in their order, and the scan goes through one after the other
    have hchildren : ∀ (ms : List Node) (facts : FileFacts), ms ⊆ n.namedChildren →
        Meets rules source ⟨ms ++ rest, facts⟩ (ms.flatMap (Node.walk rules.isImport))
          ⟨rest, (ms.flatMap (Node.walk rules.isImport)).foldl (FileFacts.see rules source) facts⟩ := by
      intro ms
      induction ms with
      | nil => exact fun facts _ => .nil _
      | cons m ms ih =>
        intro facts hms
        obtain ⟨hm, hms⟩ := List.cons_subset.mp hms
        rw [List.flatMap_cons, List.foldl_append]
        exact (meets_walk m (ms ++ rest) facts).append (ih _ hms)
    rw [Node.walk_of_go hn, List.foldl_cons]
    exact .cons hnext (hchildren _ _ (List.Subset.refl _))
termination_by sizeOf n
decreasing_by exact Node.sizeOf_lt_of_mem_named hm

end FactScan

namespace FileFacts

variable {rules : Rules} {source : String}

/-! ## What the nodes add -/

theorem imports_see (facts : FileFacts) (n : Node) : (facts.see rules source n).imports =
    facts.imports ++ if rules.isImport n then [Text.collapse (n.text source)] else [] := by
  rw [see]
  split
  · rfl
  · split <;> rw [List.append_nil]

theorem mem_callables_see {facts : FileFacts} {n : Node} {name : String} :
    name ∈ (facts.see rules source n).callables ↔
      name ∈ facts.callables ∨ rules.isImport n = false ∧ callable? rules source n = some name := by
  rw [see]
  split
  · rename_i himport
    simp [himport]
  · rename_i himport
    split
    · rename_i name' hname
      simp [himport, hname, or_comm, eq_comm]
    · rename_i hname
      simp [hname]

theorem imports_foldl_see (facts : FileFacts) (ns : List Node) :
    (ns.foldl (see rules source) facts).imports = facts.imports ++
      (ns.filter rules.isImport).map fun n => Text.collapse (n.text source) := by
  induction ns generalizing facts with
  | nil => simp
  | cons n ns ih =>
    rw [List.foldl_cons, ih, imports_see, List.append_assoc, List.filter_cons]
    split <;> rfl

theorem mem_callables_foldl_see {facts : FileFacts} {ns : List Node} {name : String} :
    name ∈ (ns.foldl (see rules source) facts).callables ↔ name ∈ facts.callables ∨
      ∃ n ∈ ns, rules.isImport n = false ∧ callable? rules source n = some name := by
  induction ns generalizing facts with
  | nil => simp
  | cons n ns ih => rw [List.foldl_cons, ih, mem_callables_see, or_assoc, List.exists_mem_cons_iff]

theorem ofTree_eq (rules : Rules) (source : String) (root : Node) :
    ofTree rules source root = (root.walk rules.isImport).foldl (see rules source) ⟨[], []⟩ := by
  rw [ofTree, (FactScan.meets_walk root [] ⟨[], []⟩).run_eq, FactScan.run_nil]

theorem callable?_eq_some_iff {n : Node} {name : String} :
    callable? rules source n = some name ↔
      ∃ d, rules.definition? source n = some d ∧ d.role ≠ .container ∧ d.name = name := by
  rw [callable?]
  split
  · rename_i d hd
    simp [hd]
  · rename_i hnone
    simp [hnone]

/-- The callables of a file are the functions and methods that the walk around its imports meets. -/
theorem mem_callables_ofTree {root : Node} {name : String} :
    name ∈ (ofTree rules source root).callables ↔ ∃ n ∈ root.walk rules.isImport,
      rules.isImport n = false ∧ ∃ d, rules.definition? source n = some d ∧ d.role ≠ .container ∧
        d.name = name := by
  simp only [ofTree_eq, mem_callables_foldl_see, callable?_eq_some_iff, List.not_mem_nil, false_or]

/-! ## Facts and trees -/

/-- The facts are those of a tree that is given by its nodes and the nodes around each: the texts of the
imports that lie in no import, in order, and the names of the functions and methods outside imports. -/
structure Describe (rules : Rules) (source : String) (facts : FileFacts)
    (lineages : List (Node × List Node)) : Prop where
  imports : facts.imports =
    (lineages.filter fun l => rules.isImport l.1 && !l.2.any rules.isImport).map fun l =>
      Text.collapse (l.1.text source)
  callables : ∀ name, name ∈ facts.callables ↔ ∃ l ∈ lineages,
    (∀ m ∈ l.1 :: l.2, rules.isImport m = false) ∧ ∃ d, rules.definition? source l.1 = some d ∧
      d.role ≠ .container ∧ d.name = name

/-- Nodes without a name are tokens: they have no named children, import nothing and define nothing. -/
def TokensAreBare (rules : Rules) (source : String) (root : Node) : Prop :=
  ∀ n ∈ root.nodes, n.named = false →
    n.namedChildren = [] ∧ rules.isImport n = false ∧ callable? rules source n = none

instance (rules : Rules) (source : String) (root : Node) :
    Decidable (TokensAreBare rules source root) :=
  inferInstanceAs (Decidable (∀ n ∈ root.nodes, n.named = false →
    n.namedChildren = [] ∧ rules.isImport n = false ∧ callable? rules source n = none))

theorem describe_named (rules : Rules) (source : String) (root : Node) :
    Describe rules source (ofTree rules source root) (root.lineages (·.named) []) where
  imports := by
    rw [ofTree_eq, imports_foldl_see, Node.walk_eq_lineages _ _ [] rfl, List.nil_append,
      List.filter_map, List.map_map, List.filter_filter]
    rfl
  callables name := by
    rw [mem_callables_ofTree, Node.walk_eq_lineages _ _ [] rfl]
    constructor
    · rintro ⟨n, hn, hno, hd⟩
      obtain ⟨l, hl, rfl⟩ := List.mem_map.mp hn
      obtain ⟨hl, hout⟩ := List.mem_filter.mp hl
      exact ⟨l, hl, List.forall_mem_cons.mpr ⟨hno, by simpa using hout⟩, hd⟩
    · rintro ⟨l, hl, hout, hd⟩
      obtain ⟨hno, hout⟩ := List.forall_mem_cons.mp hout
      exact ⟨l.1, List.mem_map_of_mem (List.mem_filter.mpr ⟨hl, by simpa using hout⟩), hno, hd⟩

/-- Tokens change nothing, so the facts are also those of the tree with its tokens. -/
theorem Describe.with_tokens {facts : FileFacts} {root : Node}
    (h : Describe rules source facts (root.lineages (·.named) []))
    (htokens : TokensAreBare rules source root) :
    Describe rules source facts (root.lineages (fun _ => true) []) where
  imports := by
    rw [h.imports, Node.filter_lineages_eq _ [] fun m hm hnamed => (htokens m hm hnamed).1]
    intro m hm hnamed around
    rw [(htokens m hm hnamed).2.1, Bool.false_and]
  callables name := by
    -- what defines a function has a name
    have hcounts := Node.filter_lineages_eq (fun l => (callable? rules source l.1).isSome) []
      (fun m hm hnamed => (htokens m hm hnamed).1)
      fun m hm hnamed around => by rw [(htokens m hm hnamed).2.2, Option.isSome_none]
    have hmem : ∀ l, (∃ d, rules.definition? source l.1 = some d ∧ d.role ≠ .container ∧
        d.name = name) → (l ∈ root.lineages (fun _ => true) [] ↔ l ∈ root.lineages (·.named) []) := by
      intro l hd
      have hsome : (callable? rules source l.1).isSome = true := by
        rw [callable?_eq_some_iff.mpr hd, Option.isSome_some]
      have hiff := congrArg (l ∈ ·) hcounts
      simpa [List.mem_filter, hsome] using hiff
    rw [h.callables]
    constructor
    · rintro ⟨l, hl, hout, hd⟩
      exact ⟨l, (hmem l hd).mpr hl, hout, hd⟩
    · rintro ⟨l, hl, hout, hd⟩
      exact ⟨l, (hmem l hd).mp hl, hout, hd⟩

/-- The scan of a tree ends. It meets the nodes that lie in no import, imports among them, in the order
in which they stand in the tree and each of them once, and it finds the imports that lie in no other
and the functions and methods that are defined outside of imports. Only named children belong to the
tree here; where all other nodes are tokens, the same holds of the tree with them. -/
theorem ofTree_describe (rules : Rules) (source : String) (root : Node) :
    let facts := ofTree rules source root
    let met := ((root.lineages (·.named) []).filter fun l => !l.2.any rules.isImport).map (·.1)
    FactScan.Meets rules source ⟨[root], ⟨[], []⟩⟩ met ⟨[], facts⟩ ∧ met.Sublist root.nodes ∧
      Describe rules source facts (root.lineages (·.named) []) ∧
      (TokensAreBare rules source root →
        Describe rules source facts (root.lineages (fun _ => true) [])) := by
  have hnamed := describe_named rules source root
  refine ⟨?_, ?_, hnamed, hnamed.with_tokens⟩
  · rw [← Node.walk_eq_lineages _ _ [] rfl, ofTree_eq]
    exact FactScan.meets_walk root [] ⟨[], []⟩
  · rw [← Node.walk_eq_lineages _ _ [] rfl]
    exact Node.walk_sublist _ root

/-- A script with an import and a function. -/
def importingScript : String := "import os\ndef f(): pass\n"

/-- Its tree, with the keywords and the colon as tokens. -/
def importingTree : Node :=
  (Node.ofRows? importingScript
    [⟨0, "module", true, "", 0, 24⟩,
      ⟨1, "import_statement", true, "", 0, 9⟩, ⟨2, "import", false, "", 0, 6⟩,
      ⟨2, "dotted_name", true, "name", 7, 9⟩,
      ⟨1, "function_definition", true, "", 10, 23⟩, ⟨2, "def", false, "", 10, 13⟩,
      ⟨2, "identifier", true, "name", 14, 15⟩, ⟨2, "parameters", true, "parameters", 15, 17⟩,
      ⟨2, ":", false, "", 17, 18⟩, ⟨2, "block", true, "body", 19, 23⟩,
      ⟨3, "pass_statement", true, "", 19, 23⟩]).getD default

/-- The script imports one module and defines one function, with its tokens looked at or not. -/
theorem describe_importingTree :
    (ofTree Python.rules importingScript importingTree).imports = ["import os"] ∧
    (ofTree Python.rules importingScript importingTree).callables = ["f"] ∧
    Describe Python.rules importingScript (ofTree Python.rules importingScript importingTree)
      (importingTree.lineages (fun _ => true) []) :=
  ⟨by decide +kernel, by decide +kernel,
    (ofTree_describe Python.rules importingScript importingTree).2.2.2 (by decide +kernel)⟩

end FileFacts

end SourceIndex
