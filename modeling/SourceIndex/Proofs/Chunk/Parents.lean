import Mathlib
import SourceIndex.Proofs.Chunk.Forest

/-! # Parents and families

Listing a draft gives a block: the chunk at its root and then deeper chunks, each of which comes
after its parent (`Draft.isBlock_list`). The chunks of a tree are the blocks of its segments, one
after the other, so the chunks at the top belong to the segments in order, and the block of such a
chunk holds exactly the chunks that reach it over their parents (`Chunk.forall₂_tops_ofTree`).

Nothing is asked of the tree here: where its nodes lie makes no difference to who is whose parent.
-/

set_option autoImplicit false

namespace SourceIndex

/-! ## Parents -/

namespace Chunk

/-- A chunk goes on from another: it is one deeper, and its dotted path is the path of the other
with a name or a line after it. -/
structure Continues (c p : Chunk) : Prop where
  depth_eq : c.depth = p.depth + 1
  fullPath_eq : (∃ name, c.name = some name ∧ c.fullPath = p.fullPath ++ "." ++ name) ∨
    c.fullPath = p.fullPath ++ "@" ++ toString c.startLine

/-- The parent of a chunk is the nearest one before it that is less deep. -/
def Follows (before : List Chunk) (c : Chunk) : Prop :=
  ∃ earlier p between, before = earlier ++ p :: between ∧ c.parentId = some p.id ∧ c.Continues p ∧
    ∀ m ∈ between, p.depth < m.depth

theorem Follows.append {before : List Chunk} {c : Chunk} (h : Follows before c)
    (front : List Chunk) : Follows (front ++ before) c := by
  obtain ⟨earlier, p, between, rfl, hid, hcontinues, hdeeper⟩ := h
  exact ⟨front ++ earlier, p, between, (List.append_assoc _ _ _).symm, hid, hcontinues, hdeeper⟩

theorem Follows.exists_parent {before : List Chunk} {c : Chunk} (h : Follows before c) :
    ∃ p ∈ before, c.parentId = some p.id := by
  obtain ⟨earlier, p, between, rfl, hid, -, -⟩ := h
  exact ⟨p, by simp, hid⟩

/-- The chunks among `cs` that are `c` or reach it over their parents. -/
inductive Within (cs : List Chunk) (c : Chunk) : Chunk → Prop
  /-- The chunk itself. -/
  | self : Within cs c c
  /-- A chunk below another one. -/
  | child {p e : Chunk} (parent : Within cs c p) (mem : e ∈ cs)
    (parentId_eq : e.parentId = some p.id) : Within cs c e

/-- The chunks `rest` stand below `c`: they are deeper, and each comes after its parent. -/
structure IsBlock (c : Chunk) (rest : List Chunk) : Prop where
  deeper : ∀ e ∈ rest, c.depth < e.depth
  follows : ∀ before e after, rest = before ++ e :: after → e.Follows (c :: before)

/-- Every chunk of a block reaches the first one. -/
theorem IsBlock.within {c : Chunk} {rest cs : List Chunk} (h : IsBlock c rest)
    (hsub : ∀ e ∈ rest, e ∈ cs) : ∀ e ∈ c :: rest, Within cs c e := by
  -- a parent stands before its chunk, so the induction is on the chunks before
  have hbefore : ∀ n, ∀ before e after, before.length = n → rest = before ++ e :: after →
      Within cs c e := by
    intro n
    induction n using Nat.strong_induction_on with
    | h n ih =>
      intro before e after hlength hsplit
      have hmem : e ∈ cs := hsub e (by rw [hsplit]; simp)
      obtain ⟨earlier, p, between, hbefore, hid, -, -⟩ := h.follows before e after hsplit
      cases earlier with
      | nil =>
        obtain ⟨rfl, -⟩ := List.cons.inj hbefore
        exact .child .self hmem hid
      | cons a earlier =>
        have heq : before = earlier ++ p :: between := (List.cons.inj hbefore).2
        refine .child (ih earlier.length ?_ earlier p (between ++ e :: after) rfl ?_) hmem hid
        · rw [← hlength, heq, List.length_append, List.length_cons]
          omega
        · rw [hsplit, heq, List.append_assoc, List.cons_append]
  intro e he
  rcases List.mem_cons.mp he with rfl | he
  · exact .self
  · obtain ⟨before, after, hsplit⟩ := List.append_of_mem he
    exact hbefore before.length before e after rfl hsplit

theorem IsBlock.exists_parent {c e : Chunk} {rest : List Chunk} (h : IsBlock c rest)
    (he : e ∈ rest) : ∃ p ∈ c :: rest, e.parentId = some p.id := by
  obtain ⟨before, after, hsplit⟩ := List.append_of_mem he
  obtain ⟨p, hp, hid⟩ := (h.follows before e after hsplit).exists_parent
  refine ⟨p, ?_, hid⟩
  rw [hsplit]
  rcases List.mem_cons.mp hp with rfl | hp
  · exact List.mem_cons_self
  · exact List.mem_cons_of_mem _ (List.mem_append_left _ hp)

/-- Two blocks with a chunk in common are the same, if no chunk occurs again. -/
theorem eq_of_mem_of_mem {blocks : List (List Chunk)} (h : blocks.flatten.Nodup) {b b' : List Chunk}
    (hb : b ∈ blocks) (hb' : b' ∈ blocks) {c : Chunk} (hc : c ∈ b) (hc' : c ∈ b') : b = b' := by
  have : Std.Symm (List.Disjoint (α := Chunk)) := ⟨fun _ _ h => h.symm⟩
  by_contra hne
  exact (List.nodup_flatten.mp h).2.forall hb hb' hne hc hc'

/-- A chunk that reaches one of a block is in the block, if the chunks of all blocks have different
ids. -/
theorem mem_of_within {blocks : List (List Chunk)} {c e : Chunk} {b : List Chunk}
    (hblocks : ∀ b ∈ blocks, ∃ top rest, b = top :: rest ∧ top.parentId = none ∧ IsBlock top rest)
    (hdistinct : (blocks.flatten.map Chunk.id).Nodup) (hb : b ∈ blocks) (hc : c ∈ b)
    (h : Within blocks.flatten c e) : e ∈ b := by
  induction h with
  | self => exact hc
  | @child p e hp he hid ih =>
    obtain ⟨b', hb', he⟩ := List.mem_flatten.mp he
    obtain ⟨top, rest, rfl, htop, hblock⟩ := hblocks b' hb'
    -- the parent of `e` is in the block of `e`, and in `b`, so both blocks are the same
    obtain ⟨q, hq, hqid⟩ : ∃ q ∈ top :: rest, e.parentId = some q.id := by
      rcases List.mem_cons.mp he with rfl | he
      · exact absurd (htop.symm.trans hid) (by simp)
      · exact hblock.exists_parent he
    have hpq : p = q := by
      refine List.inj_on_of_nodup_map hdistinct ?_ ?_ (Option.some.inj (hid.symm.trans hqid))
      · exact List.mem_flatten.mpr ⟨b, hb, ih⟩
      · exact List.mem_flatten.mpr ⟨_, hb', hq⟩
    have hsame : b = top :: rest :=
      eq_of_mem_of_mem (List.Nodup.of_map _ hdistinct) hb hb' ih (hpq ▸ hq)
    rw [hsame]
    exact he

/-- Where two lists belong together in order, each member of the second has one in the first. -/
theorem exists_of_mem_right {α β : Type} {R : α → β → Prop} {as : List α} {bs : List β}
    (h : List.Forall₂ R as bs) {b : β} (hb : b ∈ bs) : ∃ a ∈ as, R a b := by
  induction h with
  | nil => cases hb
  | @cons a b' as bs hab _ ih =>
    rcases List.mem_cons.mp hb with rfl | hb
    · exact ⟨a, List.mem_cons_self, hab⟩
    · obtain ⟨a', ha', hab'⟩ := ih hb
      exact ⟨a', List.mem_cons_of_mem a ha', hab'⟩

theorem exists_of_mem_left {α β : Type} {R : α → β → Prop} {as : List α} {bs : List β}
    (h : List.Forall₂ R as bs) {a : α} (ha : a ∈ as) : ∃ b ∈ bs, R a b :=
  exists_of_mem_right h.flip ha

end Chunk

namespace Draft

/-- A draft in which every chunk goes on from the one it is drafted under. -/
inductive Linked : Draft → Prop
  | mk {c : Chunk} {ds : List Draft} (under : ∀ d ∈ ds, d.chunk.Continues c)
    (below : ∀ d ∈ ds, Linked d) : Linked (.mk c ds)

/-! ## Blocks -/

/-- The lists of drafts with the same parent, one for each of them. -/
def blocks (parent : Option String) : (seen : List String) → List Draft → List (List Chunk)
  | _, [] => []
  | seen, d :: ds => (list parent seen d).1 :: blocks parent (list parent seen d).2 ds

theorem listAll_eq_blocks (parent : Option String) (seen : List String) (ds : List Draft) :
    (listAll parent seen ds).1 = (blocks parent seen ds).flatten := by
  induction ds generalizing seen with
  | nil => rw [listAll, blocks, List.flatten_nil]
  | cons d ds ih =>
    rw [listAll, blocks, List.flatten_cons, ← ih]

theorem forall₂_blocks (parent : Option String) (seen : List String) (ds : List Draft) :
    List.Forall₂ (fun d b => d ∈ ds ∧ b ∈ blocks parent seen ds ∧
      ∃ seen', b = (list parent seen' d).1) ds (blocks parent seen ds) := by
  induction ds generalizing seen with
  | nil => exact .nil
  | cons d ds ih =>
    refine .cons ⟨List.mem_cons_self, List.mem_cons_self, seen, rfl⟩ ((ih _).imp ?_)
    rintro e b ⟨he, hb, hlist⟩
    exact ⟨List.mem_cons_of_mem d he, List.mem_cons_of_mem _ hb, hlist⟩

theorem exists_draft_of_mem_blocks {parent : Option String} {seen : List String} {ds : List Draft}
    {b : List Chunk} (h : b ∈ blocks parent seen ds) :
    ∃ d ∈ ds, ∃ seen', b = (list parent seen' d).1 := by
  obtain ⟨d, -, hd, -, hlist⟩ := Chunk.exists_of_mem_right (forall₂_blocks parent seen ds) h
  exact ⟨d, hd, hlist⟩

/-- A place in the chunks of all blocks is a place in one of them. -/
theorem split_flatten {blocks : List (List Chunk)} {before after : List Chunk} {c : Chunk}
    (h : blocks.flatten = before ++ c :: after) :
    ∃ earlier b later front back, blocks = earlier ++ b :: later ∧ b = front ++ c :: back ∧
      before = earlier.flatten ++ front := by
  induction blocks generalizing before with
  | nil => simp at h
  | cons b blocks ih =>
    rw [List.flatten_cons] at h
    rcases eq_append_of_append_eq h with ⟨back, hb⟩ | ⟨before', rfl, hrest⟩
    · exact ⟨[], b, blocks, before, back, rfl, hb, rfl⟩
    · obtain ⟨earlier, b', later, front, back, rfl, hb', rfl⟩ := ih hrest
      exact ⟨b :: earlier, b', later, front, back, rfl, hb', by simp⟩

/-- A draft in which chunks go on from each other is listed as a block. -/
theorem isBlock_list {d : Draft} (h : d.Linked) (parent : Option String) (seen : List String) :
    ∃ id rest, (list parent seen d).1 = { d.chunk with id, parentId := parent } :: rest ∧
      Chunk.IsBlock { d.chunk with id, parentId := parent } rest := by
  induction h generalizing parent seen with
  | @mk c ds hunder hbelow ih =>
    refine ⟨freshId seen c.id, (listAll (some (freshId seen c.id)) (c.id :: seen) ds).1, ?_, ?_⟩
    · rw [list]
      rfl
    · rw [listAll_eq_blocks]
      -- every block below begins one deeper than `c`
      have hdeep : ∀ b ∈ blocks (some (freshId seen c.id)) (c.id :: seen) ds, ∀ e ∈ b,
          c.depth < e.depth := by
        intro b hb e he
        obtain ⟨d, hd, seen', rfl⟩ := exists_draft_of_mem_blocks hb
        obtain ⟨id, rest, hlist, hblock⟩ := ih d hd (some (freshId seen c.id)) seen'
        have hdepth := (hunder d hd).depth_eq
        rw [hlist] at he
        rcases List.mem_cons.mp he with rfl | he
        · exact Nat.lt_of_lt_of_eq (Nat.lt_succ_self _) hdepth.symm
        · have := hblock.deeper e he
          simp only at this
          omega
      constructor
      · intro e he
        obtain ⟨b, hb, he⟩ := List.mem_flatten.mp he
        exact hdeep b hb e he
      · intro before e after hsplit
        obtain ⟨earlier, b, later, front, back, hblocks, hb, rfl⟩ := split_flatten hsplit
        obtain ⟨d, hd, seen', rfl⟩ := exists_draft_of_mem_blocks
          (hblocks ▸ List.mem_append_right earlier List.mem_cons_self)
        obtain ⟨id, rest, hlist, hblock⟩ := ih d hd (some (freshId seen c.id)) seen'
        rw [hlist] at hb
        cases front with
        | nil =>
          -- the first chunk of a block: everything between it and `c` is in the blocks before
          obtain ⟨rfl, -⟩ := List.cons.inj hb
          have hd' := hunder d hd
          refine ⟨[], _, earlier.flatten ++ [], rfl, rfl, ⟨hd'.depth_eq, hd'.fullPath_eq⟩, ?_⟩
          intro m hm
          rw [List.append_nil] at hm
          obtain ⟨b', hb', hm⟩ := List.mem_flatten.mp hm
          exact hdeep b' (hblocks ▸ List.mem_append_left _ hb') m hm
        | cons top front =>
          obtain ⟨rfl, hrest⟩ := List.cons.inj hb
          exact (hblock.follows front e back hrest).append (_ :: earlier.flatten)

end Draft

/-! ## Files -/

namespace Chunk

variable {x : Context}

theorem linked_windowDraft (scope : String) (depth : Nat) (statements : List Node)
    (first last : Nat) : (Draft.mk (windowChunk x scope depth statements first last) []).Linked :=
  .mk (by simp) (by simp)

theorem linked_definitionDraft (site : Site) (first last : Nat) (fullPath : String)
    (kind : ChunkKind) (depth : Nat) :
    (definitionDraft x site first last fullPath kind depth).Linked := by
  obtain ⟨c, hdraft, -, -, -, hdepth, -, hpath, -⟩ :=
    definitionDraft_eq x site first last fullPath kind depth
  rw [hdraft]
  constructor
  · intro d hd
    obtain ⟨child, -, rfl⟩ := List.mem_map.mp hd
    obtain ⟨-, -, hd, hgoes⟩ := chunk_childDraft (x := x) fullPath kind (depth + 1) child
    exact ⟨by omega, hpath ▸ hgoes⟩
  · intro d hd
    obtain ⟨child, -, rfl⟩ := List.mem_map.mp hd
    cases child with
    | definition s inside start stop => exact linked_definitionDraft s start stop _ _ _
    | window statements start stop => exact linked_windowDraft _ _ statements start stop
termination_by sizeOf site.outer

theorem linked_segmentDraft (s : Segment) : (segmentDraft x s).Linked := by
  rw [segmentDraft]
  cases s.piece with
  | definition site => exact linked_definitionDraft site s.start s.stop _ _ _
  | statements => exact .mk (by simp) (by simp)

/-- The chunk `c` stands for the draft `d` at the top of the chunks `cs`: the list of the draft
begins with it and holds all chunks of `cs` that reach it. -/
def StandsFor (cs : List Chunk) (d : Draft) (c : Chunk) : Prop :=
  ∃ seen id rest, (Draft.list none seen d).1 = c :: rest ∧
    c = { d.chunk with id, parentId := none } ∧ (c :: rest).Sublist cs ∧
    ∀ e, e ∈ c :: rest ↔ e ∈ cs ∧ Within cs c e

variable {rules : Rules} {file : SourceFile} {limits : ChunkLimits} {root : Node}

theorem linked_drafts {d : Draft} (hd : d ∈ drafts x root) : d.Linked ∧ d.chunk.depth = 0 := by
  obtain ⟨s, -, rfl⟩ := List.mem_map.mp hd
  exact ⟨linked_segmentDraft s, (chunk_segmentDraft s).2.2⟩

/-- In the chunks of a tree, those that have a parent come after it. -/
theorem follows_ofTree {before after : List Chunk} {c : Chunk}
    (hsplit : ofTree rules file limits root = before ++ c :: after) (hparent : c.parentId ≠ none) :
    c.Follows before := by
  rw [ofTree_eq, Draft.listAll_eq_blocks] at hsplit
  obtain ⟨earlier, b, later, front, back, hblocks, hb, rfl⟩ := Draft.split_flatten hsplit
  obtain ⟨d, hd, seen, rfl⟩ := Draft.exists_draft_of_mem_blocks
    (hblocks ▸ List.mem_append_right earlier List.mem_cons_self)
  obtain ⟨id, rest, hlist, hblock⟩ := Draft.isBlock_list (linked_drafts hd).1 none seen
  rw [hlist] at hb
  cases front with
  | nil =>
    obtain ⟨rfl, -⟩ := List.cons.inj hb
    exact absurd rfl hparent
  | cons top front =>
    obtain ⟨rfl, hrest⟩ := List.cons.inj hb
    exact (hblock.follows front c back hrest).append earlier.flatten

/-- Where each block begins with its only chunk at the top, the chunks at the top are the first ones
of the blocks. -/
theorem forall₂_tops {P : Draft → Chunk → Prop} {ds : List Draft} {blocks : List (List Chunk)}
    (h : List.Forall₂ (fun d b => ∃ c rest, b = c :: rest ∧ c.depth = 0 ∧ (∀ e ∈ rest, 0 < e.depth) ∧
      P d c) ds blocks) : List.Forall₂ P ds (blocks.flatten.filter (·.depth = 0)) := by
  induction h with
  | nil => exact .nil
  | @cons d b ds blocks hfirst hrest ih =>
    obtain ⟨c, rest, rfl, hdepth, hdeeper, hP⟩ := hfirst
    have hnone : rest.filter (·.depth = 0) = [] := by
      refine List.filter_eq_nil_iff.mpr fun e he => ?_
      have := hdeeper e he
      simp only [decide_eq_true_eq]
      omega
    rw [List.flatten_cons, List.filter_append, List.filter_cons_of_pos (by simpa using hdepth), hnone]
    exact .cons hP ih

/-- The chunks at the top of a tree stand for its drafts. -/
theorem forall₂_tops_ofTree (rules : Rules) (file : SourceFile) (limits : ChunkLimits) (root : Node) :
    let cs := ofTree rules file limits root
    List.Forall₂ (StandsFor cs) (drafts (contextOf rules file limits root) root)
      (cs.filter (·.depth = 0)) := by
  intro cs
  set ds := drafts (contextOf rules file limits root) root with hds
  have hcs : cs = (Draft.blocks none [] ds).flatten := by
    rw [← Draft.listAll_eq_blocks]
    exact ofTree_eq rules file limits root
  have hblocks : ∀ b ∈ Draft.blocks none [] ds, ∃ top rest, b = top :: rest ∧
      top.parentId = none ∧ IsBlock top rest := by
    intro b hb
    obtain ⟨d, hd, seen, rfl⟩ := Draft.exists_draft_of_mem_blocks hb
    obtain ⟨id, rest, hlist, hblock⟩ := Draft.isBlock_list (linked_drafts hd).1 none seen
    exact ⟨_, rest, hlist, rfl, hblock⟩
  have hdistinct : ((Draft.blocks none [] ds).flatten.map Chunk.id).Nodup := by
    rw [← hcs]
    exact nodup_ids_ofTree rules file limits root
  rw [hcs]
  refine forall₂_tops ((Draft.forall₂_blocks none [] ds).imp ?_)
  rintro d b ⟨hd, hb, seen, rfl⟩
  obtain ⟨hlinked, hdepth⟩ := linked_drafts hd
  obtain ⟨id, rest, hlist, hblock⟩ := Draft.isBlock_list hlinked none seen
  rw [hlist] at hb
  -- the block of the draft is a part of the chunks, and what reaches its first chunk is in it
  have hsub := List.sublist_flatten_of_mem hb
  refine ⟨_, rest, hlist, hdepth, fun e he => Nat.zero_lt_of_lt (hblock.deeper e he), seen, id, rest,
    hlist, rfl, hsub, fun e => ⟨fun he => ⟨hsub.subset he, ?_⟩, fun ⟨_, hwithin⟩ => ?_⟩⟩
  · exact hblock.within (fun e he => hsub.subset (List.mem_cons_of_mem _ he)) e he
  · exact mem_of_within hblocks hdistinct hb List.mem_cons_self hwithin

end Chunk

end SourceIndex
