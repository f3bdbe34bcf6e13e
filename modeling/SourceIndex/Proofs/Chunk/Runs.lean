import Mathlib
import SourceIndex.Proofs.Chunk.Drafts

/-! # Statement windows

A large definition without definitions in its body is divided at its statements. Each statement
joins the window before it if it begins on one of its rows or the window stays within the maximum of
lines, and begins the next window otherwise (`Child.statementRuns_concat`). The windows then have all
statements in order. One of several statements is larger than the maximum only if some of them share
a row, and none could have been larger by the first statement of the next one
(`Child.greedy_statementRuns`).

The definition gets them as its children if there are two at least, and has its whole text otherwise
(`Chunk.windows_definitionDraft`).
-/

set_option autoImplicit false

namespace SourceIndex

namespace Node

/-- Siblings stand one after the other. -/
def SiblingsInOrder (n : Node) : Prop :=
  ∀ m ∈ n.nodes, m.children.Pairwise fun a b => a.stop.byte ≤ b.start.byte

instance (n : Node) : Decidable n.SiblingsInOrder :=
  inferInstanceAs (Decidable (∀ m ∈ n.nodes,
    m.children.Pairwise fun a b => a.stop.byte ≤ b.start.byte))

/-- No row has a part of both nodes. -/
def RowsApart (a b : Node) : Prop := a.lastRow < b.start.row ∨ b.lastRow < a.start.row

instance (a b : Node) : Decidable (a.RowsApart b) :=
  inferInstanceAs (Decidable (a.lastRow < b.start.row ∨ b.lastRow < a.start.row))

/-- Of two nodes one after the other, the second one does not begin on an earlier row. -/
theorem WellFormed.row_le {source : String} {a b : Node} (ha : a.WellFormed source)
    (hb : b.WellFormed source) (hnamed : a.named = true) (h : a.stop.byte ≤ b.start.byte) :
    a.start.row ≤ b.start.row := by
  have hplaced := ha a a.mem_nodes_self
  have hlt := hplaced.nonempty hnamed
  rw [hplaced.start_eq, (hb b b.mem_nodes_self).start_eq]
  exact Position.row_mono (Position.sorted_newlineOffsetsFrom _ _) (by omega)

/-- The named children of a node begin on their rows in order. -/
theorem WellFormed.pairwise_row_le {source : String} {n m : Node} (h : n.WellFormed source)
    (horder : n.SiblingsInOrder) (hm : m ∈ n.nodes) :
    m.namedChildren.Pairwise fun a b => a.start.row ≤ b.start.row := by
  have hbytes : m.namedChildren.Pairwise fun a b => a.stop.byte ≤ b.start.byte :=
    (horder m hm).sublist List.filter_sublist
  have hwell : ∀ k ∈ m.namedChildren, k.WellFormed source := fun k hk =>
    h.of_mem (mem_nodes_trans hm (child_mem_nodes (mem_of_mem_named hk)))
  exact hbytes.imp_of_mem fun ha hb hle =>
    (hwell _ ha).row_le (hwell _ hb) (named_of_mem_named ha) hle

end Node

namespace Child

variable {maxLines : Nat} {statements taken : List Node} {n : Node} {start stop : Nat}
  {runs older : List (List Node × Nat × Nat)}

/-- A window with one more statement than before: it is in the last window, or in one of its own. -/
theorem statementRuns_concat (maxLines : Nat) (statements : List Node) (n : Node) :
    (∃ older taken start stop, statementRuns maxLines statements = older ++ [(taken, start, stop)] ∧
      (n.start.row ≤ stop ∨ max n.lastRow stop - start < maxLines) ∧
      statementRuns maxLines (statements ++ [n]) =
        older ++ [(taken ++ [n], start, max n.lastRow stop)]) ∨
    (∀ w ∈ (statementRuns maxLines statements).getLast?,
      w.2.2 < n.start.row ∧ maxLines ≤ max n.lastRow w.2.2 - w.2.1) ∧
      statementRuns maxLines (statements ++ [n]) =
        statementRuns maxLines statements ++ [([n], n.start.row, n.lastRow)] := by
  simp only [statementRuns, List.foldl_append, List.foldl_cons, List.foldl_nil]
  cases statements.foldl (addStatement maxLines) [] with
  | nil => exact .inr ⟨by simp, by simp [addStatement]⟩
  | cons w done =>
    obtain ⟨taken, start, stop⟩ := w
    simp only [addStatement]
    split
    · rename_i hjoins
      simp only [List.map_cons, List.reverse_cons]
      exact .inl ⟨_, taken.reverse, start, stop, rfl, hjoins, rfl⟩
    · rename_i hbegins
      obtain ⟨hafter, hlarge⟩ := not_or.mp hbegins
      refine .inr ⟨fun v hv => ?_, by simp⟩
      simp only [List.map_cons, List.reverse_cons, List.getLast?_concat, Option.mem_def,
        Option.some.injEq] at hv
      subst hv
      exact ⟨Nat.lt_of_not_le hafter, Nat.le_of_not_lt hlarge⟩

/-! ## Windows as large as allowed -/

/-- The rows from `start` to `stop` are those from the first statement on to the end of the last. -/
structure Spans (statements : List Node) (start stop : Nat) : Prop where
  begins : ∃ n ∈ statements.head?, n.start.row = start
  within : ∀ n ∈ statements, start ≤ n.start.row ∧ n.start.row ≤ n.lastRow ∧ n.lastRow ≤ stop
  ends : ∃ n ∈ statements, n.lastRow = stop

theorem Spans.start_le (h : Spans statements start stop) : start ≤ stop := by
  obtain ⟨n, hn, hstop⟩ := h.ends
  have := h.within n hn
  omega

theorem Spans.single (h : n.start.row ≤ n.lastRow) : Spans [n] n.start.row n.lastRow :=
  ⟨⟨n, rfl, rfl⟩, by simpa using h, ⟨n, by simp, rfl⟩⟩

theorem Spans.concat (h : Spans statements start stop) (hrow : n.start.row ≤ n.lastRow)
    (hafter : ∀ k ∈ statements, k.start.row ≤ n.start.row) :
    Spans (statements ++ [n]) start (max n.lastRow stop) := by
  obtain ⟨k, hk, hstart⟩ := h.begins
  have hfirst := hafter k (List.mem_of_mem_head? hk)
  refine ⟨⟨k, ?_, hstart⟩, fun m hm => ?_, ?_⟩
  · rw [List.head?_append, Option.mem_def.mp hk]
    rfl
  · rcases List.mem_append.mp hm with hm | hm
    · have := h.within m hm
      omega
    · obtain rfl := List.mem_singleton.mp hm
      omega
  · rcases Nat.le_total n.lastRow stop with hle | hle
    · obtain ⟨m, hm, hstop⟩ := h.ends
      exact ⟨m, List.mem_append_left _ hm, by omega⟩
    · exact ⟨n, by simp, by omega⟩

/-- Windows of the statements that are as large as allowed, and no larger than the statements
make them. -/
structure Greedy (maxLines : Nat) (statements : List Node) (runs : List (List Node × Nat × Nat)) :
    Prop where
  /-- All statements, in order. -/
  joined : runs.flatMap (·.1) = statements
  spans : ∀ w ∈ runs, Spans w.1 w.2.1 w.2.2
  increasing : runs.Pairwise fun w v => w.2.2 < v.2.1
  /-- Several statements that share no row have the maximum of lines at most. -/
  bounded : ∀ w ∈ runs, 2 ≤ w.1.length → w.1.Pairwise Node.RowsApart →
    w.2.2 + 1 - w.2.1 ≤ maxLines
  /-- With the first statement of the next window there would be too many. -/
  maximal : runs.IsChain fun w v => ∀ n ∈ v.1.head?, maxLines < n.lastRow + 1 - w.2.1

/-- The last window with one more statement. -/
theorem Greedy.extend (h : Greedy maxLines statements (older ++ [(taken, start, stop)]))
    (hrow : n.start.row ≤ n.lastRow) (hafter : ∀ k ∈ statements, k.start.row ≤ n.start.row)
    (hjoins : n.start.row ≤ stop ∨ max n.lastRow stop - start < maxLines) :
    Greedy maxLines (statements ++ [n]) (older ++ [(taken ++ [n], start, max n.lastRow stop)]) := by
  have hspans : Spans taken start stop := h.spans (taken, start, stop) (by simp)
  have htaken : ∀ k ∈ taken, k.start.row ≤ n.start.row := fun k hk =>
    hafter k (by simp [← h.joined, hk])
  constructor
  · simp [← h.joined]
  · intro w hw
    rcases List.mem_append.mp hw with hw | hw
    · exact h.spans w (List.mem_append_left _ hw)
    · obtain rfl := List.mem_singleton.mp hw
      exact hspans.concat hrow htaken
  · obtain ⟨holder, -, hcross⟩ := List.pairwise_append.mp h.increasing
    refine List.pairwise_append.mpr ⟨holder, List.pairwise_singleton _ _, fun w hw v hv => ?_⟩
    obtain rfl := List.mem_singleton.mp hv
    exact hcross w hw (taken, start, stop) (by simp)
  · intro w hw hlength hapart
    rcases List.mem_append.mp hw with hw | hw
    · exact h.bounded w (List.mem_append_left _ hw) hlength hapart
    · obtain rfl := List.mem_singleton.mp hw
      -- the statement does not begin on a row of the one that the window ended with
      obtain ⟨k, hk, hstop⟩ := hspans.ends
      have hapart : k.RowsApart n := (List.pairwise_append.mp hapart).2.2 k hk n (by simp)
      have hbefore := htaken k hk
      have hstart := hspans.start_le
      rw [Node.RowsApart] at hapart
      simp only
      omega
  · obtain ⟨holder, -, hlast⟩ := List.isChain_append.mp h.maximal
    refine List.isChain_append.mpr ⟨holder, List.isChain_singleton _, fun w hw v hv m hm => ?_⟩
    obtain rfl : (taken ++ [n], start, max n.lastRow stop) = v := by simpa using hv
    obtain ⟨k, hk, -⟩ := hspans.begins
    have hm : m ∈ taken.head? := by
      rw [List.head?_append, Option.mem_def.mp hk] at hm
      exact Option.mem_def.mp hk ▸ hm
    exact hlast w hw (taken, start, stop) (by simp) m hm

/-- A window of its own for one more statement. -/
theorem Greedy.begin (h : Greedy maxLines statements runs) (hrow : n.start.row ≤ n.lastRow)
    (hbegins : ∀ w ∈ runs.getLast?, w.2.2 < n.start.row ∧ maxLines ≤ max n.lastRow w.2.2 - w.2.1) :
    Greedy maxLines (statements ++ [n]) (runs ++ [([n], n.start.row, n.lastRow)]) := by
  constructor
  · simp [h.joined]
  · intro w hw
    rcases List.mem_append.mp hw with hw | hw
    · exact h.spans w hw
    · obtain rfl := List.mem_singleton.mp hw
      exact .single hrow
  · refine List.pairwise_append.mpr ⟨h.increasing, List.pairwise_singleton _ _, fun w hw v hv => ?_⟩
    obtain rfl := List.mem_singleton.mp hv
    -- the rows of the last window come after those of all others
    obtain ⟨last, hlast⟩ : ∃ last, runs.getLast? = some last :=
      ⟨_, List.getLast?_eq_some_getLast (List.ne_nil_of_mem hw)⟩
    obtain ⟨older, rfl⟩ := List.getLast?_eq_some_iff.mp hlast
    have hnext := (hbegins last hlast).1
    rcases List.mem_append.mp hw with hw | hw
    · have hcross := (List.pairwise_append.mp h.increasing).2.2 w hw last (by simp)
      have hle := (h.spans last (by simp)).start_le
      simp only
      omega
    · obtain rfl := List.mem_singleton.mp hw
      exact hnext
  · intro w hw hlength hapart
    rcases List.mem_append.mp hw with hw | hw
    · exact h.bounded w hw hlength hapart
    · obtain rfl := List.mem_singleton.mp hw
      simp at hlength
  · refine List.isChain_append.mpr ⟨h.maximal, List.isChain_singleton _, fun w hw v hv m hm => ?_⟩
    obtain rfl : ([n], n.start.row, n.lastRow) = v := by simpa using hv
    obtain rfl : n = m := by simpa using hm
    have := hbegins w hw
    have hle := (h.spans w (List.mem_of_getLast? hw)).start_le
    omega

/-- Statements on rows in order are divided into windows as large as allowed. -/
theorem greedy_statementRuns (maxLines : Nat) (hrows : ∀ n ∈ statements, n.start.row ≤ n.lastRow)
    (horder : statements.Pairwise fun a b => a.start.row ≤ b.start.row) :
    Greedy maxLines statements (statementRuns maxLines statements) := by
  induction statements using List.reverseRecOn with
  | nil => exact ⟨rfl, by simp [statementRuns], .nil, by simp [statementRuns], .nil⟩
  | append_singleton statements n ih =>
    obtain ⟨hbefore, -, hcross⟩ := List.pairwise_append.mp horder
    have hafter : ∀ k ∈ statements, k.start.row ≤ n.start.row := fun k hk => hcross k hk n (by simp)
    have hrow : n.start.row ≤ n.lastRow := hrows n (by simp)
    have hgreedy := ih (fun k hk => hrows k (List.mem_append_left _ hk)) hbefore
    rcases statementRuns_concat maxLines statements n with
      ⟨older, taken, start, stop, hruns, hjoins, hnext⟩ | ⟨hbegins, hnext⟩
    · rw [hnext]
      exact (hruns ▸ hgreedy).extend hrow hafter hjoins
    · rw [hnext]
      exact hgreedy.begin hrow hbegins

end Child

namespace Chunk

/-- The statements of a definition, which its body holds. -/
def statementsOf {outer : Node} (d : Definition outer) : List Node :=
  match d.body with
  | none => []
  | some body => (Child.statementContainer body).namedChildren

/-- The windows of a large definition without definitions in its body. They have all its statements,
in order and each once, on rows that increase; they are as large as allowed and no larger than the
statements make them. The definition has them for its children if there are two at least, and
otherwise has its whole text. -/
theorem windows_definitionDraft {x : Context} (hrules : x.rules.BodyInside) {site : Site}
    (hsite : site.IsFound x.rules x.source) (horder : site.outer.SiblingsInOrder) {first last : Nat}
    (hlarge : x.limits.maxLines < last - first + 1)
    (hflat : Child.nestedDefinitions x.rules x.source site.definition = [])
    (fullPath : String) (kind : ChunkKind) (depth : Nat) :
    let runs := Child.statementRuns x.limits.maxLines (statementsOf site.definition)
    Child.Greedy x.limits.maxLines (statementsOf site.definition) runs ∧
      definitionDraft x site first last fullPath kind depth =
        if 1 < runs.length then
          .mk (definitionChunk x site first last fullPath kind depth
              (Child.elided x.lines first last
                (runs.map fun (ns, start, stop) => (.window ns start stop : Child site.outer))))
            (runs.map fun (ns, start, stop) => .mk (windowChunk x fullPath (depth + 1) ns start stop) [])
        else
          .mk (definitionChunk x site first last fullPath kind depth (x.rowsText first last)) [] := by
  intro runs
  constructor
  · cases hbody : site.definition.body with
    | none =>
      simp only [runs, statementsOf, hbody]
      exact Child.greedy_statementRuns _ (by simp) .nil
    | some body =>
      have hinside := Node.mem_nodes_trans (hrules _ _ _ hsite.found body hbody)
        (Child.statementContainer_mem_nodes body)
      simp only [runs, statementsOf, hbody]
      exact Child.greedy_statementRuns _
        (fun n hn => (hsite.wellFormed.rows_named hsite.named hinside hn).2.1)
        (hsite.wellFormed.pairwise_row_le horder hinside)
  · have hplanned : plannedFor x site first last =
        if 1 < runs.length then
          runs.map fun (ns, start, stop) => (.window ns start stop : Child site.outer)
        else [] := by
      rw [plannedFor, if_pos hlarge, Child.planChildren, hflat]
      cases hbody : site.definition.body with
      | none => simp [runs, statementsOf, hbody, Child.statementRuns]
      | some body =>
        simp only [runs, statementsOf, hbody, Child.statementWindows, List.length_map]
    rw [definitionDraft_mk, definitionContent]
    simp only
    rw [hplanned]
    by_cases htwo : 1 < runs.length
    · have hsome : runs ≠ [] := List.ne_nil_of_length_pos (by omega)
      simp only [if_pos htwo, List.isEmpty_map, List.isEmpty_iff, hsome, if_false, List.map_map]
      rfl
    · simp only [if_neg htwo]
      rfl

/-! ## A function with statements only -/

/-- A function with five statements, two of them on one row. -/
def flatScript : SourceFile := .ofText ⟨"m.py"⟩ .python
  "def f():\n    a\n    b; c\n    d\n    e\n"

/-- Its tree, without the list of parameters. -/
def flatTree : Node :=
  (Node.ofRows? flatScript.content
    [⟨0, "function_definition", true, "", 0, 35⟩, ⟨1, "identifier", true, "name", 4, 5⟩,
      ⟨1, "block", true, "body", 13, 35⟩, ⟨2, "identifier", true, "", 13, 14⟩,
      ⟨2, "identifier", true, "", 19, 20⟩, ⟨2, "identifier", true, "", 22, 23⟩,
      ⟨2, "identifier", true, "", 28, 29⟩, ⟨2, "identifier", true, "", 34, 35⟩]).getD default

/-- The function in the tree. -/
def flatSite : Site where
  outer := flatTree
  before := []
  definition := (Python.rules.definition? flatScript.content flatTree).get (by decide +kernel)

/-- The function with definitions of more than two lines split: two windows, of three statements and
of two. -/
theorem windows_flatScript :
    let x : Context := ⟨flatScript, Python.rules, ⟨2, 1, 5, 0⟩, Text.lines flatScript.content, ⟨[], []⟩⟩
    let runs := Child.statementRuns 2 (statementsOf flatSite.definition)
    (runs.map fun w => (w.1.length, w.2)) = [(3, 1, 2), (2, 3, 4)] ∧
    Child.Greedy 2 (statementsOf flatSite.definition) runs ∧
    (definitionDraft x flatSite 0 4 "m.f" .function 0).chunk.content =
      "def f():\n    ...\n    ..." := by
  intro x runs
  have hfound : flatSite.IsFound Python.rules flatScript.content :=
    ⟨(Option.some_get _).symm, by decide +kernel, by decide +kernel⟩
  have hflat : Child.nestedDefinitions Python.rules flatScript.content flatSite.definition = [] :=
    List.isEmpty_iff.mp (by decide +kernel)
  have hlength : 1 < runs.length := by decide +kernel
  obtain ⟨hgreedy, hdraft⟩ := windows_definitionDraft (x := x)
    (Rules.bodyInside_ofLanguage (show Rules.ofLanguage? .python = some Python.rules from rfl)) hfound
    (by decide +kernel) (show 2 < 4 - 0 + 1 by decide) hflat "m.f" .function 0
  refine ⟨by decide +kernel, hgreedy, ?_⟩
  rw [hdraft, if_pos hlength]
  show Child.elided x.lines 0 4 _ = _
  decide +kernel

end Chunk

end SourceIndex
