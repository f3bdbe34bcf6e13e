import Mathlib
import SourceIndex.Proofs.Chunk.Roots
import SourceIndex.Proofs.Chunk.Tops
import SourceIndex.Proofs.Chunk.Facts

/-! # Calls in the chunks of a file

A definition that is split reads its node for calls without the nodes of its children, and each child
reads its own. Together they read every node below the definition once (`Chunk.Share`), however deep
the children are split and whatever nodes stand between a definition and its children
(`Chunk.share_definitionDraft`). So nothing is lost or counted twice (`Chunk.calls_ofFile`).

Calls are kept in strict order, by line and then by name (`CallEdge.pairwise_insert`).
-/

set_option autoImplicit false

namespace SourceIndex

/-! ## The order of calls -/

namespace CallEdge

/-- A call comes before another: on an earlier line, or on the same line by its name. -/
def Before (a b : CallEdge) : Prop := a.line < b.line ∨ a.line = b.line ∧ a.callee < b.callee

variable {a b e : CallEdge} {es : List CallEdge}

theorem Before.trans (hab : a.Before b) (hbe : b.Before e) : a.Before e := by
  rcases hab with hab | ⟨hline, hab⟩ <;> rcases hbe with hbe | ⟨hline', hbe⟩
  · exact .inl (hab.trans hbe)
  · exact .inl (hline' ▸ hab)
  · exact .inl (hline ▸ hbe)
  · exact .inr ⟨hline.trans hline', hab.trans hbe⟩

theorem before_of_le (hle : a.le b = true) (hne : a ≠ b) : a.Before b := by
  simp only [le, Text.le, Bool.or_eq_true, decide_eq_true_eq, Bool.and_eq_true, beq_iff_eq,
    Bool.not_eq_true', decide_eq_false_iff_not, not_lt] at hle
  rcases hle with hlt | ⟨hline, hle⟩
  · exact .inl hlt
  · refine .inr ⟨hline, lt_of_le_of_ne hle fun hcallee => hne ?_⟩
    cases a
    cases b
    exact CallEdge.mk.injEq _ _ _ _ ▸ ⟨hcallee, hline⟩

theorem before_of_not_le (hle : a.le b = false) : b.Before a := by
  simp only [le, Text.le, Bool.or_eq_false_iff, decide_eq_false_iff_not, not_lt, Bool.and_eq_false_iff,
    beq_eq_false_iff_ne, Bool.not_eq_false', decide_eq_true_eq] at hle
  obtain ⟨hline, hother⟩ := hle
  rcases hother with hne | hlt
  · exact .inl (lt_of_le_of_ne hline (Ne.symm hne))
  · rcases hline.lt_or_eq with hless | heq
    · exact .inl hless
    · exact .inr ⟨heq, hlt⟩

theorem mem_insert : a ∈ insert e es ↔ a = e ∨ a ∈ es := by
  induction es with
  | nil => simp [insert]
  | cons b es ih =>
    rw [insert]
    by_cases heq : e = b
    · subst heq
      simp
    · rw [if_neg heq]
      split
      · simp
      · simp only [List.mem_cons, ih]
        tauto

/-- Putting a call in its place keeps the calls in their order, each of them once. -/
theorem pairwise_insert (h : es.Pairwise Before) (e : CallEdge) : (insert e es).Pairwise Before := by
  induction es with
  | nil => exact List.pairwise_singleton _ _
  | cons b es ih =>
    obtain ⟨hb, hes⟩ := List.pairwise_cons.mp h
    rw [insert]
    by_cases heq : e = b
    · rw [if_pos heq]
      exact h
    · rw [if_neg heq]
      cases hle : e.le b with
      | true =>
        -- the call is before the first one, so it is before all
        have hfirst := before_of_le hle heq
        exact List.pairwise_cons.mpr
          ⟨List.forall_mem_cons.mpr ⟨hfirst, fun a ha => hfirst.trans (hb a ha)⟩, h⟩
      | false =>
        refine List.pairwise_cons.mpr ⟨fun a ha => ?_, ih hes⟩
        rcases mem_insert.mp ha with rfl | ha
        · exact before_of_not_le hle
        · exact hb a ha

end CallEdge

namespace Chunk

/-! ## Calls in parts of a tree -/

variable {rules : Rules} {source : String} {callables : List String} {excluded : List Nat}
  {roots : List Node} {e : CallEdge}

theorem mem_callsIn : e ∈ callsIn rules source callables excluded roots ↔
    ∃ n ∈ nodesOutside excluded roots, call? rules source callables n = some e := by
  have hfold : ∀ es : List CallEdge, e ∈ es.foldr CallEdge.insert [] ↔ e ∈ es := by
    intro es
    induction es with
    | nil => rfl
    | cons a es ih => rw [List.foldr_cons, CallEdge.mem_insert, ih, List.mem_cons]
  rw [callsIn, hfold, List.mem_filterMap]

theorem pairwise_callsIn (rules : Rules) (source : String) (callables : List String)
    (excluded : List Nat) (roots : List Node) :
    (callsIn rules source callables excluded roots).Pairwise CallEdge.Before :=
  List.foldrRecOn _ _ List.Pairwise.nil fun _ h e _ => CallEdge.pairwise_insert h e

theorem callee_mem {n : Node} (h : call? rules source callables n = some e) :
    e.callee ∈ callables := by
  rw [call?] at h
  split at h
  · obtain ⟨hcontains, hedge⟩ := Option.ite_none_right_eq_some.mp h
    rw [← Option.some.inj hedge]
    exact List.contains_iff_mem.mp hcontains
  · cases h

/-- What is callable in a file is a function or a method that is defined at a node of its tree. -/
theorem exists_of_mem_callables {root : Node} {name : String}
    (h : name ∈ (FileFacts.ofTree rules source root).callables) :
    ∃ n ∈ root.nodes, ∃ d, rules.definition? source n = some d ∧ d.role ≠ .container ∧
      d.name = name := by
  obtain ⟨n, hn, -, hd⟩ := FileFacts.mem_callables_ofTree.mp h
  exact ⟨n, (Node.walk_sublist _ root).subset hn, hd⟩

theorem nodesOutside_nil (roots : List Node) :
    nodesOutside [] roots = roots.flatMap (Node.walk fun _ => false) := by
  rw [nodesOutside]
  simp

theorem nodesOutside_nil_append (roots roots' : List Node) :
    nodesOutside [] (roots ++ roots') = nodesOutside [] roots ++ nodesOutside [] roots' := by
  rw [nodesOutside_nil, nodesOutside_nil, nodesOutside_nil, List.flatMap_append]

/-- The nodes of a tree without the subtrees at some children of one of its nodes, and the nodes of
these subtrees, are all nodes of the tree. -/
theorem perm_nodesOutside {n b : Node} (hsound : n.Sound) (hb : b ∈ n.nodes) {ks : List Node}
    (hks : ks.Sublist b.namedChildren) :
    (nodesOutside (ks.map fun k => k.id) [n] ++ nodesOutside [] ks).Perm (nodesOutside [] [n]) := by
  have hstops := (hsound.stops_perm hb hks).flatMap_right (Node.walk fun _ => false)
  have hwalk := Node.perm_walk (fun m => (ks.map fun k => k.id).contains m.id) n
  rw [nodesOutside_nil, nodesOutside_nil, nodesOutside, List.flatMap_singleton, List.flatMap_singleton]
  exact (hstops.symm.append_left _).trans hwalk

/-! ## Calls shared among chunks -/

/-- A part of a tree: what is below the roots, without the subtrees at the nodes that are excluded. -/
structure Scan where
  excluded : List Nat
  roots : List Node

/-- The nodes of the part. -/
def Scan.nodes (s : Scan) : List Node := nodesOutside s.excluded s.roots

/-- The chunks `cs` have the calls below the roots among them: each has those of a part, and every
node is in exactly one of the parts. -/
def Share (rules : Rules) (source : String) (callables : List String) (roots : List Node)
    (cs : List Chunk) : Prop :=
  ∃ scans : List Scan,
    List.Forall₂ (fun c s => c.calls = callsIn rules source callables s.excluded s.roots) cs scans ∧
      (scans.flatMap Scan.nodes).Perm (nodesOutside [] roots)

namespace Share

variable {roots' ks : List Node} {cs cs' : List Chunk}

theorem nil : Share rules source callables [] [] := ⟨[], .nil, by simp [nodesOutside]⟩

theorem append (h : Share rules source callables roots cs) (h' : Share rules source callables roots' cs') :
    Share rules source callables (roots ++ roots') (cs ++ cs') := by
  obtain ⟨scans, hcalls, hperm⟩ := h
  obtain ⟨scans', hcalls', hperm'⟩ := h'
  refine ⟨scans ++ scans', List.rel_append hcalls hcalls', ?_⟩
  rw [List.flatMap_append, nodesOutside_nil_append]
  exact hperm.append hperm'

/-- A chunk with the calls of all roots. -/
theorem singleton {c : Chunk} (h : c.calls = callsIn rules source callables [] roots) :
    Share rules source callables roots [c] := by
  refine ⟨[⟨[], roots⟩], .cons h .nil, ?_⟩
  rw [List.flatMap_singleton]
  exact List.Perm.refl _

/-- A chunk with the calls outside of some children of a node, before the chunks of these children. -/
theorem cons {n b : Node} (hsound : n.Sound) (hb : b ∈ n.nodes) (hks : ks.Sublist b.namedChildren)
    {c : Chunk} (hcalls : c.calls = callsIn rules source callables (ks.map fun k => k.id) [n])
    (h : Share rules source callables ks cs) : Share rules source callables [n] (c :: cs) := by
  obtain ⟨scans, hscans, hperm⟩ := h
  refine ⟨⟨ks.map fun k => k.id, [n]⟩ :: scans, .cons hcalls hscans, ?_⟩
  rw [List.flatMap_cons]
  calc nodesOutside (ks.map fun k => k.id) [n] ++ scans.flatMap Scan.nodes
    List.Perm _ (nodesOutside (ks.map fun k => k.id) [n] ++ nodesOutside [] ks) :=
      hperm.append_left _
    List.Perm _ (nodesOutside [] [n]) := perm_nodesOutside hsound hb hks

/-- Chunks that share the calls have all of them and no others. -/
theorem mem_iff (h : Share rules source callables roots cs) :
    e ∈ callsIn rules source callables [] roots ↔ ∃ c ∈ cs, e ∈ c.calls := by
  obtain ⟨scans, hscans, hperm⟩ := h
  rw [mem_callsIn]
  constructor
  · rintro ⟨n, hn, he⟩
    obtain ⟨s, hs, hn⟩ := List.mem_flatMap.mp (hperm.mem_iff.mpr hn)
    obtain ⟨c, hc, hcalls⟩ := exists_of_mem_right hscans hs
    exact ⟨c, hc, hcalls ▸ mem_callsIn.mpr ⟨n, hn, he⟩⟩
  · rintro ⟨c, hc, he⟩
    obtain ⟨s, hs, hcalls⟩ := exists_of_mem_left hscans hc
    obtain ⟨n, hn, he⟩ := mem_callsIn.mp (hcalls ▸ he)
    exact ⟨n, hperm.mem_iff.mp (List.mem_flatMap.mpr ⟨s, hs, hn⟩), he⟩

end Share

/-! ## Definitions -/

variable {x : Context}

/-- Children share the calls below their roots, if each of them does. -/
theorem share_blocks {outer : Node} {scope : String} {kind : ChunkKind} {depth : Nat}
    {parent : Option String} {children : List (Child outer)} (seen : List String)
    (h : ∀ child ∈ children, ∀ seen, Share x.rules x.source x.facts.callables child.roots
      (Draft.list parent seen (childDraft x scope kind depth child)).1) :
    Share x.rules x.source x.facts.callables (children.flatMap Child.roots)
      (Draft.listAll parent seen (children.map (childDraft x scope kind depth))).1 := by
  induction children generalizing seen with
  | nil => exact .nil
  | cons child children ih =>
    obtain ⟨hchild, hchildren⟩ := List.forall_mem_cons.mp h
    rw [List.flatMap_cons, List.map_cons, Draft.listAll]
    exact (hchild seen).append (ih _ hchildren)

theorem exists_roots_plannedFor (hrules : x.rules.BodyInside) {site : Site}
    (hfound : x.rules.definition? x.source site.outer = some site.definition) (first last : Nat) :
    ∃ b ∈ site.outer.nodes,
      ((plannedFor x site first last).flatMap Child.roots).Sublist b.namedChildren := by
  rw [plannedFor]
  split
  · exact Child.exists_roots_planChildren (hrules x.source site.outer site.definition hfound) _
  · exact ⟨site.outer, site.outer.mem_nodes_self, List.nil_sublist _⟩

/-- The chunks of a definition share the calls of its outermost node. -/
theorem share_definitionDraft (hrules : x.rules.BodyInside) (site : Site)
    (hfound : x.rules.definition? x.source site.outer = some site.definition)
    (hsound : site.outer.Sound) (first last : Nat) (fullPath : String) (kind : ChunkKind) (depth : Nat)
    (parent : Option String) (seen : List String) :
    Share x.rules x.source x.facts.callables [site.outer]
      (Draft.list parent seen (definitionDraft x site first last fullPath kind depth)).1 := by
  obtain ⟨b, hb, hks⟩ := exists_roots_plannedFor hrules hfound first last
  rw [definitionDraft_mk, Draft.list]
  refine .cons hsound hb hks ?_ (share_blocks _ fun child hchild seen => ?_)
  · -- what the chunk leaves out are the roots of the children
    rw [← Child.flatMap_nodeIds]
    rfl
  · cases child with
    | definition s inside start stop =>
      -- a nested definition stands at a node of the tree, and it is smaller
      have hplanned : .definition s inside start stop ∈
          Child.planChildren x.rules x.source x.limits.maxLines site.definition := by
        rw [plannedFor] at hchild
        split at hchild
        · exact hchild
        · cases hchild
      have hmem : s.outer ∈ b.namedChildren :=
        hks.subset (List.mem_flatMap.mpr ⟨_, hchild, List.mem_singleton_self _⟩)
      have hinside := Node.mem_nodes_trans hb (Node.child_mem_nodes (Node.mem_of_mem_named hmem))
      exact share_definitionDraft hrules s (Child.found_planChildren hplanned) (hsound.of_mem hinside)
        start stop _ _ _ _ _
    | window statements start stop =>
      -- a window has all calls of its statements, and nothing is below it
      rw [childDraft, Draft.list]
      exact .singleton rfl
termination_by sizeOf site.outer

/-! ## Files -/

variable {file : SourceFile} {limits : ChunkLimits} {root : Node}

/-- The calls of a chunk are in their order, and they call functions and methods of the tree. -/
theorem calls_ofTree {c : Chunk} (hc : c ∈ ofTree rules file limits root) :
    c.calls.Pairwise CallEdge.Before ∧ ∀ e ∈ c.calls, ∃ n ∈ root.nodes, ∃ d,
      rules.definition? file.content n = some d ∧ d.role ≠ .container ∧ d.name = e.callee := by
  obtain ⟨excluded, roots, hcalls⟩ : ∃ excluded roots,
      c.calls = (contextOf rules file limits root).calls excluded roots := by
    -- listing drafts changes ids and parents, but no calls
    refine Draft.of_mem_listAll
      (P := fun c => ∃ excluded roots, c.calls = (contextOf rules file limits root).calls excluded roots)
      (fun _ _ _ h => h) _ ?_ _ _ c hc
    exact allIn_drafts _ (fun _ hcut => hcut.calls_eq) root
  rw [hcalls]
  refine ⟨pairwise_callsIn _ _ _ _ _, fun e he => ?_⟩
  obtain ⟨n, -, hn⟩ := mem_callsIn.mp he
  exact exists_of_mem_callables (callee_mem hn)

/-- The chunk of a definition at the top and the chunks that reach it share the calls of the node at
which the definition is found. -/
theorem share_of_standsFor (hrules : rules.BodyInside) {s : Segment} {site : Site} {c : Chunk}
    (hsite : s.site? = some site)
    (hfound : rules.definition? file.content site.outer = some site.definition)
    (hsound : site.outer.Sound) (h : StandsForSegment rules file limits root s c) :
    let cs := ofTree rules file limits root
    ∃ family : List Chunk, family.Sublist cs ∧ (∀ e, e ∈ family ↔ e ∈ cs ∧ Within cs c e) ∧
      Share rules file.content (FileFacts.ofTree rules file.content root).callables [site.outer]
        family := by
  obtain ⟨seen, id, rest, hlist, -, hsub, hfamily⟩ := h
  refine ⟨c :: rest, hsub, hfamily, ?_⟩
  have hdraft : segmentDraft (contextOf rules file limits root) s =
      definitionDraft (contextOf rules file limits root) site s.start s.stop
        (topPath file.path site.definition.receiver site.definition.name)
        (kindOf site.definition.role none) 0 := by
    rw [segmentDraft, Segment.piece_of_site? hsite]
    rfl
  rw [← hlist, hdraft]
  exact share_definitionDraft (x := contextOf rules file limits root) hrules site hfound hsound _ _ _ _
    _ _ _

/-- In a file with a tree, the chunks at the top that carry definitions carry those that begin on rows
of their own, in order. Each of them and the chunks that reach it have together the calls of the node
at which the definition is found, and each node of it is read for exactly one of these chunks. The
calls of every chunk are in strict order, and they call functions and methods that the file defines. -/
theorem calls_ofFile (parse : Parse) (file : SourceFile) (limits : ChunkLimits) {rules : Rules}
    {root : Node} (hrules : Rules.ofLanguage? file.language = some rules)
    (hparse : parse file.language file.content = some root) (hrows : root.TopRows file.content)
    (hsound : root.Sound) :
    let cs := (ofFile parse file limits).chunks
    let callables := (FileFacts.ofTree rules file.content root).callables
    List.Forall₂ (fun site c => Carries site c ∧
        (∃ family : List Chunk, family.Sublist cs ∧ (∀ e, e ∈ family ↔ e ∈ cs ∧ Within cs c e) ∧
          Share rules file.content callables [site.outer] family) ∧
        ((nodesOutside [] [site.outer]).map fun n => n.id).Nodup ∧
        ∀ e, e ∈ callsIn rules file.content callables [] [site.outer] ↔
          ∃ k ∈ cs, Within cs c k ∧ e ∈ k.calls)
      (topSites rules file.content root)
      ((cs.filter (·.depth = 0)).filter (·.kind ≠ .module)) ∧
    ∀ c ∈ cs, c.calls.Pairwise CallEdge.Before ∧ ∀ e ∈ c.calls, ∃ n ∈ root.nodes, ∃ d,
      rules.definition? file.content n = some d ∧ d.role ≠ .container ∧ d.name = e.callee := by
  have hfinds := Rules.findsNames_ofLanguage hrules
  cases hblank : Text.isBlankText file.content with
  | true =>
    rw [ofFile, hblank, topSites_of_blank hfinds hblank]
    exact ⟨.nil, by simp⟩
  | false =>
    rw [chunks_ofFile hblank hrules hparse]
    refine ⟨?_, fun c hc => calls_ofTree hc⟩
    -- each chunk at the top with its site and the segment that it stands for
    have hsites := (List.forall₂_and_left _ _).mpr
      ⟨fun site => mem_topSites, forall₂_topSites limits hfinds hrows⟩
    refine hsites.imp ?_
    rintro site c ⟨⟨hchild, hfound⟩, hcarries, s, -, hsite, hstands⟩
    have hsound' := hsound.of_mem (Node.child_mem_nodes (Node.mem_of_mem_named hchild))
    obtain ⟨family, hsub, hfamily, hshare⟩ := share_of_standsFor (Rules.bodyInside_ofLanguage hrules)
      hsite hfound hsound' hstands
    refine ⟨hcarries, ⟨family, hsub, hfamily, hshare⟩, ?_, fun e => ?_⟩
    · rw [nodesOutside_nil, List.flatMap_singleton]
      exact hsound'.distinct.sublist ((Node.walk_sublist _ _).map _)
    · rw [hshare.mem_iff]
      constructor
      · rintro ⟨k, hk, he⟩
        obtain ⟨hk, hwithin⟩ := (hfamily k).mp hk
        exact ⟨k, hk, hwithin, he⟩
      · rintro ⟨k, hk, hwithin, he⟩
        exact ⟨k, (hfamily k).mpr ⟨hk, hwithin⟩, he⟩

/-! ## A small script -/

/-- A function with a function in it, which calls a third one. -/
def smallScript : SourceFile := .ofText ⟨"m.py"⟩ .python
  "def f():\n    def g():\n        h()\n    g()\ndef h():\n    pass\n"

/-- Its tree, without the lists of parameters and arguments. -/
def scriptTree : Node :=
  (Node.ofRows? smallScript.content
    [⟨0, "module", true, "", 0, 60⟩,
      ⟨1, "function_definition", true, "", 0, 41⟩, ⟨2, "identifier", true, "name", 4, 5⟩,
      ⟨2, "block", true, "body", 13, 41⟩,
      ⟨3, "function_definition", true, "", 13, 33⟩, ⟨4, "identifier", true, "name", 17, 18⟩,
      ⟨4, "block", true, "body", 30, 33⟩, ⟨5, "call", true, "", 30, 33⟩,
      ⟨6, "identifier", true, "function", 30, 31⟩,
      ⟨3, "call", true, "", 38, 41⟩, ⟨4, "identifier", true, "function", 38, 39⟩,
      ⟨1, "function_definition", true, "", 42, 59⟩, ⟨2, "identifier", true, "name", 46, 47⟩,
      ⟨2, "block", true, "body", 55, 59⟩]).getD default

/-- The names that can be called in the small script. -/
def scriptCallables : List String :=
  (FileFacts.ofTree Python.rules smallScript.content scriptTree).callables

/-- The small script, with definitions of more than three lines split: the inner function has the call
in it, the outer one the other call, and together they have both. -/
theorem calls_smallScript : ∃ cs, (ofFile (fun _ _ => some scriptTree) smallScript ⟨3, 1, 5, 0⟩).chunks = cs ∧
    (cs.map fun c => (c.fullPath, c.depth, c.calls)) =
      [("m.f", 0, [⟨"g", 4⟩]), ("m.f.g", 1, [⟨"h", 3⟩]), ("m.h", 0, [])] ∧
    ((topSites Python.rules smallScript.content scriptTree).map fun site =>
        callsIn Python.rules smallScript.content scriptCallables [] [site.outer]) =
      [[⟨"h", 3⟩, ⟨"g", 4⟩], []] ∧
    (∀ site ∈ topSites Python.rules smallScript.content scriptTree, ∃ c ∈ cs, Carries site c ∧
      ∀ e, e ∈ callsIn Python.rules smallScript.content scriptCallables [] [site.outer] ↔
        ∃ k ∈ cs, Within cs c k ∧ e ∈ k.calls) ∧
    ∀ c ∈ cs, c.calls.Pairwise CallEdge.Before ∧ ∀ e ∈ c.calls, ∃ n ∈ scriptTree.nodes, ∃ d,
      Python.rules.definition? smallScript.content n = some d ∧ d.role ≠ .container ∧
        d.name = e.callee := by
  have hwell : scriptTree.WellFormed smallScript.content := by decide +kernel
  obtain ⟨htops, hcalls⟩ := calls_ofFile (fun _ _ => some scriptTree) smallScript ⟨3, 1, 5, 0⟩ rfl rfl
    hwell.topRows (by decide +kernel)
  refine ⟨_, rfl, by decide +kernel, by decide +kernel, fun site hsite => ?_, hcalls⟩
  obtain ⟨c, hc, hcarries, -, -, hiff⟩ := exists_of_mem_left htops hsite
  exact ⟨c, (List.mem_filter.mp (List.mem_filter.mp hc).1).1, hcarries, hiff⟩

end Chunk

end SourceIndex
