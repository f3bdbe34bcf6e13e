import Mathlib
import SourceIndex.Proofs.Chunk.Runs

/-! # Documentation above a definition

In all languages but one the documentation of a definition is taken from the comments above it. The
languages differ in the comments that count and in the nodes that may stand between
(`CommentStyle.ofLanguage?`). Going up from a definition, what belongs to it is a block: comments that
count and nodes that may stand between, without a blank row, up to a block comment at most
(`CommentStyle.IsBlock`). The documentation has the comments of the longest block, in order
(`CommentStyle.docstring_of_longest`).

Whether a comment has its row for itself does not matter. One that stands behind a statement, on its
last row, documents the definition in the next row (`Chunk.docstring_besideFile`), although that row is
given to the statement.
-/

set_option autoImplicit false

namespace SourceIndex

/-- What of the nodes above a definition documents it. -/
structure CommentStyle where
  /-- Whether a comment counts, by its text without blanks in front. -/
  accepts : String → Bool
  /-- Whether a node may stand between. -/
  skip : Node → Bool

namespace CommentStyle

/-- The style of a language that has documentation in comments. -/
def ofLanguage? : Language → Option CommentStyle
  | .rust => some ⟨isDocComment, Rust.isAttribute⟩
  | .javaScript | .typeScript | .tsx | .c | .cpp => some ⟨isDocComment, fun _ => false⟩
  | .go => some ⟨fun t => Text.startsWith t "//", fun _ => false⟩
  | .java => some ⟨fun t => Text.startsWith t "/**", fun _ => false⟩
  | _ => none

variable (style : CommentStyle) (source : String)

/-- Whether a node is a comment that counts. -/
def documents (n : Node) : Bool := n.isComment && style.accepts (Text.trimLeft (n.text source))

/-- Whether a node begins like a block comment. -/
def opensBlock (source : String) (n : Node) : Bool :=
  Text.startsWith (Text.trimLeft (n.text source)) "/*"

/-- Nodes above `outer`, the nearest one first, that belong to it: each is a comment that counts or may
stand between, no blank row lies between one and the next, and none follows a block comment. -/
structure IsBlock (outer : Node) (run : List Node) : Prop where
  kinds : ∀ n ∈ run, style.skip n = true ∨ style.documents source n = true
  close : (outer :: run).IsChain fun below above => below.start.row ≤ above.lastRow + 1
  single : ∀ n ∈ run.dropLast, style.skip n = true ∨ opensBlock source n = false

/-- A run of the nodes `before` has all blocks that begin with the nearest one. -/
structure IsLongest (outer : Node) (before run : List Node) : Prop where
  begins : run <+: before
  blocks : ∀ near, near <+: before → (style.IsBlock source outer near ↔ near <+: run)

/-- The comments of a run that is given from below, in order. -/
def comments (run : List Node) : List Node := (run.filter fun n => !style.skip n).reverse

/-- The text of documentation that has some comments. -/
def write (source : String) (comments : List Node) : Option String :=
  if comments = [] then none
  else some (Text.unlines (comments.map fun n => Text.trimRight (n.text source)))

variable {style source} {outer n : Node} {before run : List Node}

/-! ## Blocks -/

theorem isBlock_nil : style.IsBlock source outer [] := by
  constructor
  · simp
  · exact List.isChain_singleton _
  · simp

theorem isBlock_cons_iff {rest : List Node} :
    style.IsBlock source outer (n :: rest) ↔
      outer.start.row ≤ n.lastRow + 1 ∧ (style.skip n = true ∨ style.documents source n = true) ∧
        (rest = [] ∨ style.skip n = true ∨ opensBlock source n = false) ∧
          style.IsBlock source n rest := by
  constructor
  · rintro ⟨hkinds, hclose, hsingle⟩
    rw [List.isChain_cons_cons] at hclose
    refine ⟨hclose.1, hkinds n List.mem_cons_self, ?_, fun m hm => hkinds m (List.mem_cons_of_mem n hm),
      hclose.2, fun m hm => ?_⟩
    · cases rest with
      | nil => exact .inl rfl
      | cons m rest => exact .inr (hsingle n (by simp))
    · cases rest with
      | nil => simp at hm
      | cons k rest => exact hsingle m (List.mem_cons_of_mem n hm)
  · rintro ⟨hnear, hkind, hsingle, hblock⟩
    refine ⟨List.forall_mem_cons.mpr ⟨hkind, hblock.kinds⟩,
      List.isChain_cons_cons.mpr ⟨hnear, hblock.close⟩, ?_⟩
    cases rest with
    | nil => simp
    | cons m rest =>
      have hn := hsingle.resolve_left (List.cons_ne_nil m rest)
      exact List.forall_mem_cons.mpr ⟨hn, hblock.single⟩

/-! ## The longest block -/

theorem IsLongest.isBlock (h : style.IsLongest source outer before run) :
    style.IsBlock source outer run :=
  (h.blocks run h.begins).mpr List.prefix_rfl

theorem isLongest_nil : style.IsLongest source outer [] [] := by
  refine ⟨List.prefix_rfl, fun near hnear => ?_⟩
  obtain rfl := List.prefix_nil.mp hnear
  exact iff_of_true isBlock_nil List.prefix_rfl

/-- Nodes above a node are compared with a run above it, one with the other. -/
theorem isLongest_cons_of {run : List Node} (hrun : run <+: n :: before)
    (h : ∀ rest, rest <+: before → (style.IsBlock source outer (n :: rest) ↔ n :: rest <+: run)) :
    style.IsLongest source outer (n :: before) run := by
  refine ⟨hrun, fun near hnear => ?_⟩
  cases near with
  | nil => exact iff_of_true isBlock_nil List.nil_prefix
  | cons m rest =>
    obtain ⟨rfl, hrest⟩ := List.cons_prefix_cons.mp hnear
    exact h rest hrest

/-- Nothing belongs to a definition if the nearest node does not. -/
theorem isLongest_of_stop (h : ∀ rest, ¬ style.IsBlock source outer (n :: rest)) :
    style.IsLongest source outer (n :: before) [] := by
  refine isLongest_cons_of List.nil_prefix fun rest _ => iff_of_false (h rest) ?_
  simp

/-- A block comment is the last one that belongs to a definition. -/
theorem isLongest_of_opens (hnear : outer.start.row ≤ n.lastRow + 1) (hskip : style.skip n = false)
    (hdocuments : style.documents source n = true) (hopens : opensBlock source n = true) :
    style.IsLongest source outer (n :: before) [n] := by
  refine isLongest_cons_of (by simp) fun rest _ => ?_
  rw [isBlock_cons_iff, List.cons_prefix_cons, List.prefix_nil]
  constructor
  · rintro ⟨-, -, hsingle, -⟩
    simp only [hskip, hopens, Bool.false_eq_true, Bool.true_eq_false, or_false] at hsingle
    exact ⟨rfl, hsingle⟩
  · rintro ⟨-, rfl⟩
    exact ⟨hnear, .inr hdocuments, .inl rfl, isBlock_nil⟩

/-- Otherwise what belongs to it belongs to the definition too. -/
theorem IsLongest.cons (h : style.IsLongest source n before run)
    (hnear : outer.start.row ≤ n.lastRow + 1)
    (hkind : style.skip n = true ∨ style.documents source n = true)
    (hsingle : style.skip n = true ∨ opensBlock source n = false) :
    style.IsLongest source outer (n :: before) (n :: run) := by
  refine isLongest_cons_of (List.cons_prefix_cons.mpr ⟨rfl, h.begins⟩) fun rest hrest => ?_
  rw [isBlock_cons_iff, List.cons_prefix_cons, ← h.blocks rest hrest]
  exact ⟨fun hblock => ⟨rfl, hblock.2.2.2⟩, fun hblock => ⟨hnear, hkind, .inr hsingle, hblock.2⟩⟩

/-- The search upwards collects the texts of the longest block. -/
theorem commentsAbove_spec (style : CommentStyle) (source : String) (outer : Node)
    (before : List Node) (found : List String) :
    ∃ run, style.IsLongest source outer before run ∧
      commentsAbove source style.accepts style.skip outer.start.row before found =
        (style.comments run).map (fun n => Text.trimRight (n.text source)) ++ found := by
  induction before generalizing outer found with
  | nil => exact ⟨[], isLongest_nil, rfl⟩
  | cons n before ih =>
    rw [commentsAbove]
    by_cases hfar : n.lastRow + 1 < outer.start.row
    · -- a blank row
      rw [if_pos hfar]
      refine ⟨[], isLongest_of_stop fun rest hblock => ?_, rfl⟩
      exact absurd (isBlock_cons_iff.mp hblock).1 (Nat.not_le.mpr hfar)
    rw [if_neg hfar]
    have hnear : outer.start.row ≤ n.lastRow + 1 := Nat.le_of_not_lt hfar
    by_cases hskip : style.skip n = true
    · -- a node that may stand between
      rw [if_pos hskip]
      obtain ⟨run, hlongest, hfound⟩ := ih n found
      refine ⟨n :: run, hlongest.cons hnear (.inl hskip) (.inl hskip), ?_⟩
      rw [hfound, comments, comments, List.filter_cons_of_neg (by simp [hskip])]
    rw [if_neg hskip]
    by_cases hdocuments : style.documents source n = true
    · -- a comment that counts
      have hboth := hdocuments
      rw [documents, Bool.and_eq_true] at hboth
      simp only [hboth.1, hboth.2, Bool.not_true, Bool.false_eq_true, if_false]
      have hcomments : ∀ run, style.comments (n :: run) = style.comments run ++ [n] := by
        intro run
        rw [comments, comments, List.filter_cons_of_pos (by simpa using hskip), List.reverse_cons]
      by_cases hopens : opensBlock source n = true
      · refine ⟨[n], isLongest_of_opens hnear (by simpa using hskip) hdocuments hopens, ?_⟩
        rw [opensBlock] at hopens
        rw [if_pos hopens, hcomments]
        rfl
      · obtain ⟨run, hlongest, hfound⟩ := ih n (Text.trimRight (n.text source) :: found)
        refine ⟨n :: run, hlongest.cons hnear (.inr hdocuments) (.inr (by simpa using hopens)), ?_⟩
        rw [opensBlock] at hopens
        rw [if_neg hopens, hfound, hcomments, List.map_append, List.append_assoc]
        rfl
    · -- any other node
      refine ⟨[], isLongest_of_stop fun rest hblock => ?_, ?_⟩
      · exact (isBlock_cons_iff.mp hblock).2.1.elim hskip hdocuments
      · rw [documents, Bool.and_eq_true] at hdocuments
        by_cases hcomment : n.isComment = true
        · have hrefused : ¬ style.accepts (Text.trimLeft (n.text source)) = true :=
            fun haccepts => hdocuments ⟨hcomment, haccepts⟩
          simp [hcomment, hrefused, comments]
        · simp [hcomment, comments]

/-! ## Languages -/

variable {l : Language} {rules : Rules}

theorem docstring?_eq (hrules : Rules.ofLanguage? l = some rules) (hstyle : ofLanguage? l = some style)
    (source : String) (s : Site) :
    rules.docstring? source s = leadingComments? source style.accepts style.skip s := by
  cases l <;> simp only [ofLanguage?, Rules.ofLanguage?, Option.some.injEq, reduceCtorEq] at hrules hstyle
  all_goals
    subst hrules hstyle
    rfl

/-- Comments, and nodes that may stand between, belong to the node after them. -/
theorem isTrivia_eq (hrules : Rules.ofLanguage? l = some rules) (hstyle : ofLanguage? l = some style)
    (n : Node) : rules.isTrivia n = (n.isComment || style.skip n) := by
  cases l <;> simp only [ofLanguage?, Rules.ofLanguage?, Option.some.injEq, reduceCtorEq] at hrules hstyle
  all_goals
    subst hrules hstyle
    first
    | rfl
    | exact (Bool.or_false _).symm

theorem IsBlock.isTrivia (hrules : Rules.ofLanguage? l = some rules)
    (hstyle : ofLanguage? l = some style) (h : style.IsBlock source outer run) {n : Node}
    (hn : n ∈ run) : rules.isTrivia n = true := by
  rw [isTrivia_eq hrules hstyle]
  rcases h.kinds n hn with hskip | hdocuments
  · rw [hskip, Bool.or_true]
  · rw [documents, Bool.and_eq_true] at hdocuments
    rw [hdocuments.1, Bool.true_or]

/-- The documentation of a definition has the comments of the longest block. -/
theorem exists_longest (hrules : Rules.ofLanguage? l = some rules)
    (hstyle : ofLanguage? l = some style) (source : String) (before : List Node) (d : Definition outer) :
    ∃ run, style.IsLongest source outer before run ∧
      rules.docstring? source ⟨outer, before, d⟩ = write source (style.comments run) := by
  obtain ⟨run, hlongest, hfound⟩ := commentsAbove_spec style source outer before []
  refine ⟨run, hlongest, ?_⟩
  rw [docstring?_eq hrules hstyle, leadingComments?, hfound, List.append_nil, write]
  cases style.comments run <;> rfl

/-! ## The sibling above -/

theorem mem_comments_iff {c : Node} : c ∈ style.comments run ↔ c ∈ run ∧ style.skip c = false := by
  rw [comments, List.mem_reverse, List.mem_filter, Bool.not_eq_true']

/-- A list with a property of all its elements does not reach an element without it. -/
theorem prefix_of_prefix_append {α : Type} {p : α → Prop} {run near far : List α} {a : α}
    (h : run <+: near ++ a :: far) (hrun : ∀ b ∈ run, p b) (ha : ¬ p a) : run <+: near := by
  rcases Nat.lt_or_ge near.length run.length with hlt | hle
  · have hreach : near ++ [a] <+: run := by
      refine List.prefix_of_prefix_length_le ⟨far, by simp⟩ h ?_
      simpa using hlt
    exact absurd (hrun a (hreach.subset (by simp))) ha
  · exact List.prefix_of_prefix_length_le h (List.prefix_append _ _) hle

/-- The longest block stays below a sibling that does not belong to the definition. -/
theorem IsLongest.within (hrules : Rules.ofLanguage? l = some rules)
    (hstyle : ofLanguage? l = some style) {between far : List Node}
    (h : style.IsLongest source outer (between ++ n :: far) run) (hn : rules.isTrivia n = false) :
    run <+: between := by
  refine prefix_of_prefix_append h.begins (fun m hm => h.isBlock.isTrivia hrules hstyle hm) ?_
  simp [hn]

/-- A node does not end below the row on which a later one begins. -/
theorem lastRow_le_row {a b : Node} (ha : a.IsPlaced source) (hb : b.IsPlaced source)
    (h : a.stop.byte ≤ b.start.byte) : a.lastRow ≤ b.start.row := by
  have hlast : a.lastRow ≤ a.stop.row := by
    rw [Node.lastRow]
    split <;> omega
  have hrow : a.stop.row ≤ b.start.row := by
    rw [ha.stop_eq, hb.start_eq]
    exact Position.row_mono (Position.sorted_newlineOffsetsFrom _ _) h
  exact hlast.trans hrow

/-- The comments of the longest block begin below a sibling that does not belong to the definition
exactly if no comment right after it that belongs to the definition begins on its last row. -/
theorem IsLongest.below_iff (hrules : Rules.ofLanguage? l = some rules)
    (hstyle : ofLanguage? l = some style) {between far : List Node}
    (h : style.IsLongest source outer (between ++ n :: far) run) (hn : rules.isTrivia n = false) :
    (∀ c ∈ style.comments run, n.lastRow < c.start.row) ↔
      ∀ near c rest, between = near ++ c :: rest → style.skip c = false →
        style.IsBlock source outer (near ++ [c]) → n.lastRow < c.start.row := by
  constructor
  · rintro hbelow near c rest rfl hskip hblock
    have hreach : near ++ [c] <+: run := (h.blocks _ ⟨rest ++ n :: far, by simp⟩).mp hblock
    exact hbelow c (mem_comments_iff.mpr ⟨hreach.subset (by simp), hskip⟩)
  · intro hbelow c hc
    obtain ⟨hmem, hskip⟩ := mem_comments_iff.mp hc
    obtain ⟨near, above, rfl⟩ := List.append_of_mem hmem
    have hreach : near ++ [c] <+: near ++ c :: above := ⟨above, by simp⟩
    obtain ⟨rest, hrest⟩ := hreach.trans (h.within hrules hstyle hn)
    exact hbelow near c rest (by simp [← hrest]) hskip
      ((h.blocks _ (hreach.trans h.begins)).mpr hreach)

/-- In every language that has documentation in comments, and for every definition in a tree of a text,
the documentation has the comments of the longest block above the definition: no blank row lies between
one of its nodes and the next, or before the definition, and its comments are in the order of the text.
None of them begins above the last row of a sibling that is no comment and no attribute. They all begin
below it exactly if the block does not reach up to a comment that begins on that row. -/
theorem docstring_of_longest (hrules : Rules.ofLanguage? l = some rules)
    (hstyle : ofLanguage? l = some style) {root parent : Node} (hroot : root.WellFormed source)
    (horder : root.SiblingsInOrder) (hparent : parent ∈ root.nodes) {later : List Node}
    (hsite : parent.namedChildren = before.reverse ++ outer :: later) (d : Definition outer) :
    ∃ run, style.IsLongest source outer before run ∧
      rules.docstring? source ⟨outer, before, d⟩ = write source (style.comments run) ∧
      (style.comments run).Sublist before.reverse ∧
      (style.comments run).Pairwise (fun a b => a.stop.byte ≤ b.start.byte) ∧
      ∀ between n far, before = between ++ n :: far → rules.isTrivia n = false →
        (∀ c ∈ style.comments run, n.lastRow ≤ c.start.row) ∧
        ((∀ c ∈ style.comments run, n.lastRow < c.start.row) ↔
          ∀ near c rest, between = near ++ c :: rest → style.skip c = false →
            style.IsBlock source outer (near ++ [c]) → n.lastRow < c.start.row) := by
  obtain ⟨run, hlongest, hdocstring⟩ := exists_longest hrules hstyle source before d
  have hinorder : before.reverse.Pairwise fun a b => a.stop.byte ≤ b.start.byte := by
    have hchildren := (horder parent hparent).sublist (List.filter_sublist (p := (·.named)))
    have hnamed : (before.reverse ++ outer :: later).Pairwise fun a b => a.stop.byte ≤ b.start.byte :=
      hsite ▸ hchildren
    exact (List.pairwise_append.mp hnamed).1
  have hplaced : ∀ m ∈ before, m.IsPlaced source := by
    intro m hm
    have hchild : m ∈ parent.namedChildren := by
      rw [hsite]
      exact List.mem_append_left _ (List.mem_reverse.mpr hm)
    exact hroot m (Node.mem_nodes_trans hparent (Node.child_mem_nodes (Node.mem_of_mem_named hchild)))
  have hsublist : (style.comments run).Sublist before.reverse :=
    (List.filter_sublist.trans hlongest.begins.sublist).reverse
  refine ⟨run, hlongest, hdocstring, hsublist, hinorder.sublist hsublist, ?_⟩
  rintro between n far rfl hn
  refine ⟨fun c hc => ?_, hlongest.below_iff hrules hstyle hn⟩
  obtain ⟨hmem, -⟩ := mem_comments_iff.mp hc
  have hbetween : c ∈ between := (hlongest.within hrules hstyle hn).subset hmem
  have hbytes : n.stop.byte ≤ c.start.byte := by
    rw [List.pairwise_reverse] at hinorder
    exact (List.pairwise_append.mp hinorder).2.2 c hbetween n List.mem_cons_self
  exact lastRow_le_row (hplaced n (by simp)) (hplaced c (by simp [hbetween])) hbytes

end CommentStyle

namespace Chunk

/-! ## A comment behind a function -/

/-- Two functions on adjacent rows, with a comment behind the first one. -/
def besideFile : SourceFile := .ofText ⟨"a.go"⟩ .go
  "package a\n\nfunc f() \x7b\x7d // first\nfunc g() \x7b\x7d\n"

/-- Its tree. -/
def besideTree : Node :=
  (Node.ofRows? besideFile.content
    [⟨0, "source_file", true, "", 0, 44⟩, ⟨1, "package_clause", true, "", 0, 9⟩,
      ⟨2, "package_identifier", true, "", 8, 9⟩, ⟨1, "function_declaration", true, "", 11, 22⟩,
      ⟨2, "identifier", true, "name", 16, 17⟩, ⟨2, "parameter_list", true, "parameters", 17, 19⟩,
      ⟨2, "block", true, "body", 20, 22⟩, ⟨1, "comment", true, "", 23, 31⟩,
      ⟨1, "function_declaration", true, "", 32, 43⟩, ⟨2, "identifier", true, "name", 37, 38⟩,
      ⟨2, "parameter_list", true, "parameters", 38, 40⟩,
      ⟨2, "block", true, "body", 41, 43⟩]).getD default

/-- The nodes below its root: the clause, the first function, the comment and the second function. -/
def besideNode (i : Nat) : Node := besideTree.namedChildren.getD i default

theorem namedChildren_besideTree :
    besideTree.namedChildren = [besideNode 0, besideNode 1, besideNode 2, besideNode 3] := by
  have hlength : besideTree.namedChildren.length = 4 := by decide +kernel
  unfold besideNode
  generalize besideTree.namedChildren = nodes at hlength
  match nodes, hlength with
  | [_, _, _, _], _ => rfl

/-- The second function. -/
def besideDefinition : Definition (besideNode 3) :=
  (Go.rules.definition? besideFile.content (besideNode 3)).get (by decide +kernel)

/-- The comment on the last row of the first function documents the second one. -/
theorem docstring_besideFile :
    besideTree.WellFormed besideFile.content ∧ besideTree.SiblingsInOrder ∧
    besideTree.namedChildren = [besideNode 0, besideNode 1, besideNode 2, besideNode 3] ∧
    Go.rules.definition? besideFile.content (besideNode 3) = some besideDefinition ∧
    Go.rules.isTrivia (besideNode 1) = false ∧
    (besideNode 2).start.row = (besideNode 1).lastRow ∧
    Go.rules.docstring? besideFile.content
        ⟨besideNode 3, [besideNode 2, besideNode 1, besideNode 0], besideDefinition⟩ =
      some ((besideNode 2).text besideFile.content) ∧
    (Chunk.ofFile (fun _ _ => some besideTree) besideFile ⟨120, 5, 60, 10⟩).chunks.map Chunk.docstring =
      [none, some "// first"] := by
  refine ⟨by decide +kernel, by decide +kernel, namedChildren_besideTree, (Option.some_get _).symm,
    by decide +kernel, by decide +kernel, by decide +kernel, by decide +kernel⟩

end Chunk

/-- The longest block above the second function reaches up to the comment behind the first one. -/
theorem CommentStyle.longest_besideFile : ∃ (style : CommentStyle) (run : List Node),
    CommentStyle.ofLanguage? .go = some style ∧
    style.IsLongest Chunk.besideFile.content (Chunk.besideNode 3)
      [Chunk.besideNode 2, Chunk.besideNode 1, Chunk.besideNode 0] run ∧
    CommentStyle.write Chunk.besideFile.content (style.comments run) = some "// first" ∧
    (∀ c ∈ style.comments run, (Chunk.besideNode 1).lastRow ≤ c.start.row) ∧
    ¬ ∀ c ∈ style.comments run, (Chunk.besideNode 1).lastRow < c.start.row := by
  have hroot : Chunk.besideTree.WellFormed Chunk.besideFile.content := by decide +kernel
  have hsite : Chunk.besideTree.namedChildren =
      [Chunk.besideNode 2, Chunk.besideNode 1, Chunk.besideNode 0].reverse ++ Chunk.besideNode 3 :: [] :=
    Chunk.namedChildren_besideTree
  obtain ⟨run, hlongest, hdocstring, -, -, hsiblings⟩ :=
    docstring_of_longest (l := .go) rfl rfl hroot (by decide +kernel)
      Chunk.besideTree.mem_nodes_self hsite Chunk.besideDefinition
  obtain ⟨hnotabove, hbelow⟩ := hsiblings [Chunk.besideNode 2] (Chunk.besideNode 1)
    [Chunk.besideNode 0] rfl (by decide +kernel)
  refine ⟨_, run, rfl, hlongest, ?_, hnotabove, fun hall => ?_⟩
  · rw [← hdocstring]
    decide +kernel
  · have hrow := hbelow.mp hall [] (Chunk.besideNode 2) [] rfl rfl
      (isBlock_cons_iff.mpr ⟨by decide +kernel, .inr (by decide +kernel), .inl rfl, isBlock_nil⟩)
    exact absurd hrow (by decide +kernel)

end SourceIndex
