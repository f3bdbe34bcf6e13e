import Mathlib
import SourceIndex.Proofs.Text.Lines
import SourceIndex.Syntax.Node

/-! # Rows of a text and of the nodes of its tree

Rows are counted by the newlines before a byte, lines are what the newlines divide a text into. A
byte of a text lies on a row that is the index of one of its lines (`Position.row_lt_length_lines`).

`Node.WellFormed` says of a tree what holds of every tree that a parser makes of a text: nodes lie
inside their parents, named nodes are not empty, and positions are counted in the text. The last row
of a named node is then the row of its last byte (`Node.IsPlaced.lastRow_eq`), so the rows of a node
are among those of every node around it (`Node.WellFormed.rows_of_mem`).
-/

set_option autoImplicit false

namespace SourceIndex

/-! ## Rows -/

namespace Position

theorem le_of_mem_newlineOffsetsFrom {cs : List Char} {start b : Nat}
    (h : b ∈ newlineOffsetsFrom start cs) : start ≤ b := by
  induction cs generalizing start with
  | nil => simp [newlineOffsetsFrom] at h
  | cons c cs ih =>
    rw [newlineOffsetsFrom] at h
    split at h
    · rcases List.mem_cons.mp h with rfl | hrest
      · exact le_refl _
      · have := ih hrest
        omega
    · have := ih h
      omega

theorem sorted_newlineOffsetsFrom (cs : List Char) (start : Nat) :
    (newlineOffsetsFrom start cs).Pairwise (· < ·) := by
  induction cs generalizing start with
  | nil => exact List.Pairwise.nil
  | cons c cs ih =>
    rw [newlineOffsetsFrom]
    split
    · refine List.pairwise_cons.mpr ⟨fun b hb => ?_, ih _⟩
      have hle := le_of_mem_newlineOffsetsFrom hb
      have hpos := c.utf8Size_pos
      omega
    · exact ih _

variable {newlines : List Nat} (hsorted : newlines.Pairwise (· < ·))

include hsorted

theorem takeWhile_eq_filter (b : Nat) :
    newlines.takeWhile (· < b) = newlines.filter (· < b) := by
  induction newlines with
  | nil => rfl
  | cons a rest ih =>
    obtain ⟨hlt, hrest⟩ := List.pairwise_cons.mp hsorted
    by_cases hab : a < b
    · simp [hab, ih hrest]
    · have hnone : ∀ x ∈ rest, ¬ x < b := by
        intro x hx
        have := hlt x hx
        omega
      simpa [hab] using hnone

theorem row_eq (b : Nat) : (ofByte newlines b).row = newlines.countP (· < b) := by
  rw [ofByte, takeWhile_eq_filter hsorted, List.countP_eq_length_filter]

theorem row_mono {a b : Nat} (h : a ≤ b) : (ofByte newlines a).row ≤ (ofByte newlines b).row := by
  rw [row_eq hsorted, row_eq hsorted]
  refine List.countP_mono_left fun x _ hx => ?_
  simp only [decide_eq_true_eq] at hx ⊢
  omega

/-- A newline ends its row. -/
theorem row_succ (b : Nat) :
    (ofByte newlines (b + 1)).row = (ofByte newlines b).row + if b ∈ newlines then 1 else 0 := by
  rw [row_eq hsorted, row_eq hsorted]
  induction newlines with
  | nil => rfl
  | cons a rest ih =>
    obtain ⟨hlt, hrest⟩ := List.pairwise_cons.mp hsorted
    rw [List.countP_cons, List.countP_cons, ih hrest]
    have hout : b = a → b ∉ rest := fun hab hb => by
      have := hlt b hb
      omega
    by_cases hab : b = a
    · simp [hab, hab ▸ hout hab]
    · have hiff : a < b + 1 ↔ a < b := by omega
      simp [hab, hiff]
      omega

/-- A position begins its row if a newline stands right before it. -/
theorem column_succ_eq_zero_iff (b : Nat) : (ofByte newlines (b + 1)).column = 0 ↔ b ∈ newlines := by
  have hmem : b ∈ newlines ↔ b ∈ newlines.filter (· < b + 1) := by simp
  rw [hmem, ofByte, takeWhile_eq_filter hsorted]
  have hpassed : ∀ x ∈ newlines.filter (· < b + 1), x < b + 1 := by simp
  have hincreasing : (newlines.filter (· < b + 1)).Pairwise (· < ·) := hsorted.filter _
  generalize newlines.filter (· < b + 1) = passed at hpassed hincreasing ⊢
  cases hlast : passed.getLast? with
  | none =>
    rw [List.getLast?_eq_none_iff.mp hlast]
    simp
  | some m =>
    obtain ⟨older, rfl⟩ := List.getLast?_eq_some_iff.mp hlast
    have hm : m < b + 1 := hpassed m (by simp)
    have holder : ∀ x ∈ older, x < m := by
      intro x hx
      exact (List.pairwise_append.mp hincreasing).2.2 x hx m (by simp)
    constructor
    · intro hcolumn
      have hbm : b = m := by
        simp only at hcolumn
        omega
      simp [hbm]
    · intro hb
      rcases List.mem_append.mp hb with hb | hb
      · have := holder b hb
        simp only
        omega
      · obtain rfl := List.mem_singleton.mp hb
        simp

end Position

/-! ## Rows and lines -/

namespace Text

theorem length_lineChars_newline (cs : List Char) :
    (lineChars ('\n' :: cs)).length = (lineChars cs).length + 1 := by
  have hpieces : pieces (· == '\n') ('\n' :: cs) = [] :: pieces (· == '\n') cs := rfl
  obtain ⟨p, ps, hps⟩ := List.exists_cons_of_ne_nil (pieces_ne_nil (· == '\n') cs)
  rw [lineChars, lineChars, hpieces, hps]
  simp

theorem length_lineChars_cons {c : Char} (h : c ≠ '\n') (cs : List Char) :
    (lineChars (c :: cs)).length = max 1 (lineChars cs).length := by
  obtain ⟨p, ps, hps⟩ := List.exists_cons_of_ne_nil (pieces_ne_nil (· == '\n') cs)
  have hpieces : pieces (· == '\n') (c :: cs) = (c :: p) :: ps := by
    have hcut : (c == '\n') = false := by simpa using h
    rw [pieces, List.foldr_cons] at *
    rw [hps, hcut]
    rfl
  rw [lineChars, lineChars, hpieces, hps]
  cases ps with
  | nil => by_cases hp : p = [] <;> simp [hp]
  | cons q qs => simp

end Text

namespace Position

/-- Up to a byte of a text there are fewer newlines than the text has lines. -/
theorem countP_lt_length_lineChars {cs : List Char} (hne : cs ≠ []) {start b : Nat}
    (h : b < start + (cs.map Char.utf8Size).sum) :
    (newlineOffsetsFrom start cs).countP (· < b) < (Text.lineChars cs).length := by
  induction cs generalizing start with
  | nil => exact absurd rfl hne
  | cons c cs ih =>
    rw [List.map_cons, List.sum_cons] at h
    have hrest : cs ≠ [] → (newlineOffsetsFrom (start + c.utf8Size) cs).countP (· < b) <
        (Text.lineChars cs).length := fun hcs => ih hcs (by omega)
    by_cases hc : c = '\n'
    · subst hc
      have hoffsets : newlineOffsetsFrom start ('\n' :: cs) =
          start :: newlineOffsetsFrom (start + Char.utf8Size '\n') cs := rfl
      rw [hoffsets, Text.length_lineChars_newline, List.countP_cons]
      by_cases hcs : cs = []
      · subst hcs
        have hsize : Char.utf8Size '\n' = 1 := rfl
        rw [hsize] at h
        have hle : ¬ start < b := by simpa using h
        simp [newlineOffsetsFrom, hle]
      · have := hrest hcs
        split <;> omega
    · have hoffsets : newlineOffsetsFrom start (c :: cs) =
          newlineOffsetsFrom (start + c.utf8Size) cs := by
        rw [newlineOffsetsFrom, if_neg hc]
      rw [hoffsets, Text.length_lineChars_cons hc]
      by_cases hcs : cs = []
      · subst hcs
        simp [newlineOffsetsFrom]
      · have := hrest hcs
        omega

/-- The row of a byte of a text is the index of one of its lines. -/
theorem row_lt_length_lines {source : String} {b : Nat} (h : b < source.utf8ByteSize) :
    (ofByte (newlineOffsets source) b).row < (Text.lines source).length := by
  have hsize : source.utf8ByteSize = (source.toList.map Char.utf8Size).sum := by
    rw [← String.size_toByteArray, ← String.utf8Encode_toList, List.utf8Encode]
    simp [List.length_flatMap]
  rw [newlineOffsets, row_eq (sorted_newlineOffsetsFrom _ _), Text.lines, List.length_map]
  refine countP_lt_length_lineChars (fun hnil => ?_) (by omega)
  rw [hsize, hnil] at h
  simp at h

end Position

theorem Text.lines_ne_nil {source : String} (h : Text.isBlankText source = false) :
    Text.lines source ≠ [] := by
  have hne : source.toList ≠ [] := by
    intro hnil
    rw [Text.isBlankText, hnil] at h
    cases h
  obtain ⟨c, cs, hcs⟩ := List.exists_cons_of_ne_nil hne
  have hpos := c.utf8Size_pos
  have hsize : 0 < 0 + (source.toList.map Char.utf8Size).sum := by
    rw [hcs, List.map_cons, List.sum_cons]
    omega
  have hlt := Position.countP_lt_length_lineChars hne hsize
  intro hnil
  rw [Text.lines, List.map_eq_nil_iff] at hnil
  rw [hnil] at hlt
  exact absurd hlt (Nat.not_lt_zero _)

/-! ## Trees of a text -/

namespace Node

mutual

/-- A node and all nodes below it, in pre-order. -/
def nodes : Node → List Node
  | .mk id kind named field start stop children =>
    .mk id kind named field start stop children :: nodesIn children

/-- The nodes of trees that stand side by side. -/
def nodesIn : List Node → List Node
  | [] => []
  | n :: ns => nodes n ++ nodesIn ns

end

theorem nodes_eq (n : Node) : n.nodes = n :: nodesIn n.children := by
  cases n
  rw [nodes]

theorem mem_nodes_self (n : Node) : n ∈ n.nodes := by
  rw [nodes_eq]
  exact List.mem_cons_self

theorem mem_nodesIn_iff {ns : List Node} {k : Node} : k ∈ nodesIn ns ↔ ∃ n ∈ ns, k ∈ n.nodes := by
  induction ns with
  | nil => simp [nodesIn]
  | cons n ns ih => simp [nodesIn, ih]

theorem mem_nodes_of_child {n m k : Node} (hm : m ∈ n.children) (hk : k ∈ m.nodes) :
    k ∈ n.nodes := by
  rw [nodes_eq]
  exact List.mem_cons_of_mem n (mem_nodesIn_iff.mpr ⟨m, hm, hk⟩)

theorem child_mem_nodes {n m : Node} (hm : m ∈ n.children) : m ∈ n.nodes :=
  mem_nodes_of_child hm m.mem_nodes_self

/-- A node below `n` is `n` itself or stands below one of its children. -/
theorem eq_or_mem_of_mem_nodes {n k : Node} (h : k ∈ n.nodes) :
    k = n ∨ ∃ m ∈ n.children, k ∈ m.nodes := by
  rw [nodes_eq] at h
  rcases List.mem_cons.mp h with heq | hin
  · exact .inl heq
  · exact .inr (mem_nodesIn_iff.mp hin)

theorem mem_nodes_trans {n m k : Node} (hm : m ∈ n.nodes) (hk : k ∈ m.nodes) : k ∈ n.nodes := by
  rcases eq_or_mem_of_mem_nodes hm with rfl | ⟨c, hc, hmc⟩
  · exact hk
  · exact mem_nodes_of_child hc (mem_nodes_trans hmc hk)
termination_by sizeOf n
decreasing_by exact sizeOf_lt_of_mem hc

/-- A node lies in a text: its positions are counted there, it is not empty if it is named, and its
children lie inside it. -/
structure IsPlaced (source : String) (n : Node) : Prop where
  start_eq : n.start = Position.ofByte (Position.newlineOffsets source) n.start.byte
  stop_eq : n.stop = Position.ofByte (Position.newlineOffsets source) n.stop.byte
  stop_le : n.stop.byte ≤ source.utf8ByteSize
  nonempty : n.named = true → n.start.byte < n.stop.byte
  inside : ∀ m ∈ n.children, n.start.byte ≤ m.start.byte ∧ m.stop.byte ≤ n.stop.byte

instance (source : String) (n : Node) : Decidable (n.IsPlaced source) :=
  decidable_of_iff
    (n.start = Position.ofByte (Position.newlineOffsets source) n.start.byte ∧
      n.stop = Position.ofByte (Position.newlineOffsets source) n.stop.byte ∧
      n.stop.byte ≤ source.utf8ByteSize ∧ (n.named = true → n.start.byte < n.stop.byte) ∧
      ∀ m ∈ n.children, n.start.byte ≤ m.start.byte ∧ m.stop.byte ≤ n.stop.byte)
    (by
      constructor
      · rintro ⟨hstart, hstop, hle, hne, hin⟩
        exact ⟨hstart, hstop, hle, hne, hin⟩
      · intro h
        exact ⟨h.start_eq, h.stop_eq, h.stop_le, h.nonempty, h.inside⟩)

/-- A tree of a text: all its nodes lie there. Siblings need not be in order. -/
def WellFormed (source : String) (n : Node) : Prop := ∀ m ∈ n.nodes, m.IsPlaced source

instance (source : String) (n : Node) : Decidable (n.WellFormed source) :=
  inferInstanceAs (Decidable (∀ m ∈ n.nodes, m.IsPlaced source))

theorem WellFormed.of_mem {source : String} {n m : Node} (h : n.WellFormed source) (hm : m ∈ n.nodes) : m.WellFormed source :=
  fun _ hk => h _ (mem_nodes_trans hm hk)

/-- The bytes of a node are among those of a node around it. -/
theorem WellFormed.bytes_of_mem {source : String} {n m : Node} (h : n.WellFormed source)
    (hm : m ∈ n.nodes) :
    n.start.byte ≤ m.start.byte ∧ m.stop.byte ≤ n.stop.byte := by
  rcases eq_or_mem_of_mem_nodes hm with rfl | ⟨c, hc, hmc⟩
  · exact ⟨le_refl _, le_refl _⟩
  · have hchild := (h n n.mem_nodes_self).inside c hc
    have hbelow := (h.of_mem (child_mem_nodes hc)).bytes_of_mem hmc
    omega
termination_by sizeOf n
decreasing_by exact sizeOf_lt_of_mem hc

variable {source : String} {n m : Node}

/-- The last row of a named node is the row of its last byte. -/
theorem IsPlaced.lastRow_eq (h : n.IsPlaced source) (hnamed : n.named = true) :
    n.lastRow = (Position.ofByte (Position.newlineOffsets source) (n.stop.byte - 1)).row := by
  have hsorted : (Position.newlineOffsets source).Pairwise (· < ·) :=
    Position.sorted_newlineOffsetsFrom _ _
  have hlt := h.nonempty hnamed
  obtain ⟨b, hb⟩ : ∃ b, n.stop.byte = b + 1 := ⟨n.stop.byte - 1, by omega⟩
  have hstart : n.start.row ≤ (Position.ofByte (Position.newlineOffsets source) b).row := by
    rw [h.start_eq]
    exact Position.row_mono hsorted (by omega)
  have hstop : n.stop = Position.ofByte (Position.newlineOffsets source) (b + 1) := by
    rw [h.stop_eq, hb]
  have hcolumn := Position.column_succ_eq_zero_iff hsorted b
  rw [hb, Nat.add_sub_cancel, lastRow, hstop, Position.row_succ hsorted]
  by_cases hmem : b ∈ Position.newlineOffsets source
  · rw [if_pos hmem, if_pos ⟨hcolumn.mpr hmem, by omega⟩]
    rfl
  · rw [if_neg hmem, if_neg fun hand => hmem (hcolumn.mp hand.1)]
    rfl

/-- A named node has a row at least, and only rows of the text. -/
theorem WellFormed.rows (h : n.WellFormed source) (hnamed : n.named = true) :
    n.start.row ≤ n.lastRow ∧ n.lastRow < (Text.lines source).length := by
  have hplaced := h n n.mem_nodes_self
  have hlt := hplaced.nonempty hnamed
  have hle := hplaced.stop_le
  rw [hplaced.lastRow_eq hnamed]
  constructor
  · rw [hplaced.start_eq]
    exact Position.row_mono (Position.sorted_newlineOffsetsFrom _ _) (by omega)
  · exact Position.row_lt_length_lines (by omega)

/-- The rows of a named node are among those of a named node around it. -/
theorem WellFormed.rows_of_mem (h : n.WellFormed source) (hn : n.named = true) (hm : m ∈ n.nodes)
    (hnamed : m.named = true) : n.start.row ≤ m.start.row ∧ m.lastRow ≤ n.lastRow := by
  have hsorted : (Position.newlineOffsets source).Pairwise (· < ·) :=
    Position.sorted_newlineOffsetsFrom _ _
  have houter := h n n.mem_nodes_self
  have hinner := h m hm
  obtain ⟨hstart, hstop⟩ := h.bytes_of_mem hm
  rw [houter.lastRow_eq hn, hinner.lastRow_eq hnamed, houter.start_eq, hinner.start_eq]
  exact ⟨Position.row_mono hsorted hstart, Position.row_mono hsorted (by omega)⟩

end Node

end SourceIndex
