import Mathlib
import SourceIndex.Proofs.Chunk.Ids

/-! # Forests in pre-order

The chunks of a file are drafted as trees and listed in pre-order. `Draft.Nested` says of a draft
that every chunk in it lies right below the one it is drafted under (`Chunk.IsUnder`), and
`Draft.Listed` says the same of the list, where parents are known by their ids. Listing keeps it
(`Draft.listed_listAll`), because no id is given out twice.
-/

set_option autoImplicit false

namespace SourceIndex

/-! ## Chunks under chunks -/

namespace Chunk

/-- The lines of a chunk, ends included. -/
def lineRange (c : Chunk) : Nat × Nat := (c.startLine, c.endLine)

/-- A chunk stands right below another: it is one deeper, its dotted path goes on from the path of
the other by a name or a line, and its lines are among those of the other. -/
structure IsUnder (c p : Chunk) : Prop where
  depth_eq : c.depth = p.depth + 1
  fullPath_eq : (∃ name, c.name = some name ∧ c.fullPath = p.fullPath ++ "." ++ name) ∨
    c.fullPath = p.fullPath ++ "@" ++ toString c.startLine
  start_le : p.startLine ≤ c.startLine
  le_end : c.endLine ≤ p.endLine

/-- The content of a chunk is what the file has on its lines. -/
def HasText (lines : List String) (c : Chunk) : Prop :=
  c.content = Text.unlines ((lines.drop (c.startLine - 1)).take (c.endLine + 1 - c.startLine))

/-- The parent of a chunk is among the chunks before it, and all chunks between the two are deeper
than the parent. -/
def HasParent (before : List Chunk) (c : Chunk) : Prop :=
  ∃ earlier p between, before = earlier ++ p :: between ∧ c.parentId = some p.id ∧ c.IsUnder p ∧
    ∀ m ∈ between, p.depth < m.depth

theorem HasParent.append {before : List Chunk} {c : Chunk} (h : HasParent before c)
    (front : List Chunk) : HasParent (front ++ before) c := by
  obtain ⟨earlier, p, between, rfl, hid, hunder, hdeeper⟩ := h
  exact ⟨front ++ earlier, p, between, (List.append_assoc _ _ _).symm, hid, hunder, hdeeper⟩

end Chunk

namespace Draft

/-- The chunk at the root of a draft. -/
def chunk : Draft → Chunk
  | .mk c _ => c

/-- A draft in which every chunk lies right below the one it is drafted under, beside the others
there, and has its text if nothing is below it. -/
inductive Nested (lines : List String) : Draft → Prop
  | mk {c : Chunk} {ds : List Draft} (plain : '#' ∉ c.id.toList)
    (start_le : c.startLine ≤ c.endLine) (whole : ds = [] → c.HasText lines)
    (under : ∀ d ∈ ds, d.chunk.IsUnder c)
    (apart : ds.Pairwise fun a b => a.chunk.endLine < b.chunk.startLine)
    (below : ∀ d ∈ ds, Nested lines d) : Nested lines (.mk c ds)

/-! ## Lists -/

/-- The chunks `cs` list the drafts `ds`, of the given depth and below the given parent. The ids in
`seen` were met before, those in `seen'` also in the list. -/
structure Listed (lines : List String) (parent : Option String) (depth : Nat) (seen : List String)
    (ds : List Draft) (cs : List Chunk) (seen' : List String) : Prop
    extends Numbered seen cs seen' where
  start_le : ∀ c ∈ cs, c.startLine ≤ c.endLine
  whole : ∀ c ∈ cs, (∀ e ∈ cs, e.parentId ≠ some c.id) → c.HasText lines
  deep : ∀ c ∈ cs, depth ≤ c.depth
  placed : ∀ before c after, cs = before ++ c :: after →
    (∃ d ∈ ds, ∃ id, c = { d.chunk with id, parentId := parent }) ∨ c.HasParent before
  apart : cs.Pairwise fun c e => c.parentId = e.parentId → c.endLine < e.startLine
  tops : (cs.filter (·.depth = depth)).map Chunk.lineRange = ds.map fun d => d.chunk.lineRange

variable {lines : List String} {parent : Option String} {depth : Nat} {seen seen' seen'' : List String}
  {ds : List Draft} {cs rest : List Chunk}

theorem Listed.nil : Listed lines parent depth seen [] [] seen where
  toNumbered := .nil
  start_le _ hc := by cases hc
  whole _ hc := by cases hc
  deep _ hc := by cases hc
  placed before c after h := by simp at h
  apart := List.Pairwise.nil
  tops := rfl

/-- A chunk of the list is at the root of a draft, or its parent is in the list. -/
theorem Listed.top_or_parent (h : Listed lines parent depth seen ds cs seen') {c : Chunk}
    (hc : c ∈ cs) : (∃ d ∈ ds, ∃ id, c = { d.chunk with id, parentId := parent }) ∨
      ∃ p ∈ cs, c.parentId = some p.id := by
  obtain ⟨before, after, rfl⟩ := List.append_of_mem hc
  rcases h.placed before c after rfl with htop | ⟨earlier, p, between, rfl, hid, -, -⟩
  · exact .inl htop
  · exact .inr ⟨p, by simp, hid⟩

/-- Where something is drafted, the first chunk of the list has the given parent. -/
theorem Listed.exists_child (h : Listed lines parent depth seen ds cs seen') (hne : ds ≠ []) :
    ∃ c ∈ cs, c.parentId = parent := by
  cases cs with
  | nil =>
    have htops := h.tops
    simp only [List.filter_nil, List.map_nil] at htops
    exact absurd (List.map_eq_nil_iff.mp htops.symm) hne
  | cons c after =>
    rcases h.placed [] c after rfl with ⟨d, -, id, rfl⟩ | ⟨earlier, p, between, hnil, -⟩
    · exact ⟨_, List.mem_cons_self, rfl⟩
    · simp at hnil

theorem eq_append_of_append_eq {c : Chunk} {before after : List Chunk}
    (h : cs ++ rest = before ++ c :: after) :
    (∃ after', cs = before ++ c :: after') ∨ ∃ before', before = cs ++ before' ∧
      rest = before' ++ c :: after := by
  rcases List.append_eq_append_iff.mp h with ⟨middle, hbefore, hrest⟩ | ⟨middle, hcs, hafter⟩
  · exact .inr ⟨middle, hbefore, hrest⟩
  · cases middle with
    | nil => exact .inr ⟨[], by simpa using hcs.symm, by simpa using hafter.symm⟩
    | cons m middle =>
      obtain ⟨rfl, -⟩ := List.cons.inj hafter
      exact .inl ⟨middle, hcs⟩

/-- Two lists under the same parent: chunks with the same parent are either at the roots of drafts
that lie apart, or in the same one of the lists. -/
theorem Listed.append {d : Draft} (h : Listed lines parent depth seen [d] cs seen')
    (hrest : Listed lines parent depth seen' ds rest seen'')
    (hparent : ∀ id, parent = some id → Issued seen id)
    (hapart : ∀ e ∈ ds, d.chunk.endLine < e.chunk.startLine) :
    Listed lines parent depth seen (d :: ds) (cs ++ rest) seen'' where
  toNumbered := h.toNumbered.append hrest.toNumbered
  start_le c hc := by
    rcases List.mem_append.mp hc with hc | hc
    · exact h.start_le c hc
    · exact hrest.start_le c hc
  whole c hc hnone := by
    rcases List.mem_append.mp hc with hc | hc
    · exact h.whole c hc fun e he => hnone e (List.mem_append_left _ he)
    · exact hrest.whole c hc fun e he => hnone e (List.mem_append_right _ he)
  deep c hc := by
    rcases List.mem_append.mp hc with hc | hc
    · exact h.deep c hc
    · exact hrest.deep c hc
  placed before c after hsplit := by
    rcases eq_append_of_append_eq hsplit with ⟨after', hcs⟩ | ⟨before', rfl, hcs⟩
    · rcases h.placed before c after' hcs with ⟨e, he, id, hc⟩ | hhas
      · exact .inl ⟨e, by simp [List.mem_singleton.mp he], id, hc⟩
      · exact .inr hhas
    · rcases hrest.placed before' c after hcs with ⟨e, he, id, hc⟩ | hhas
      · exact .inl ⟨e, List.mem_cons_of_mem d he, id, hc⟩
      · exact .inr (hhas.append cs)
  apart := by
    refine List.pairwise_append.mpr ⟨h.apart, hrest.apart, fun c hc e he hsame => ?_⟩
    rcases h.top_or_parent hc with ⟨a, ha, id, rfl⟩ | ⟨p, hp, hpid⟩
    · obtain rfl := List.mem_singleton.mp ha
      rcases hrest.top_or_parent he with ⟨b, hb, id', rfl⟩ | ⟨q, hq, hqid⟩
      · exact hapart b hb
      · -- the parent of all has an older id than any chunk of the second list
        have hold := hparent q.id (hsame.trans hqid)
        exact absurd (hold.mono h.seen_le) (hrest.issued q hq).2
    · rcases hrest.top_or_parent he with ⟨b, hb, id', rfl⟩ | ⟨q, hq, hqid⟩
      · exact absurd (hparent p.id (hsame.symm.trans hpid)) (h.issued p hp).2
      · have hids : p.id = q.id := Option.some.inj (hpid.symm.trans (hsame.trans hqid))
        exact absurd (hids ▸ (h.issued p hp).1) (hrest.issued q hq).2
  tops := by
    rw [List.filter_append, List.map_append, h.tops, hrest.tops]
    rfl

/-- A chunk before the list of what is drafted under it. -/
theorem Listed.cons {c : Chunk} {id : String} (hid : id = freshId seen c.id)
    (h : Listed lines (some id) (c.depth + 1) (c.id :: seen) ds cs seen')
    (hnested : Nested lines (.mk c ds)) (hparent : ∀ id', parent = some id' → Issued seen id') :
    Listed lines parent c.depth seen [.mk c ds] ({ c with id, parentId := parent } :: cs) seen' := by
  obtain ⟨hplain, hstart, hwhole, hunder, -, -⟩ := hnested
  have hfresh : ¬ Issued seen id := hid ▸ not_issued_freshId hplain seen
  have hissued : Issued (c.id :: seen) id := hid ▸ issued_freshId hplain seen
  have hbelow : ∀ e ∈ cs, ¬ Issued seen e.id := fun e he hold =>
    (h.issued e he).2 (hold.mono fun b => List.count_le_count_cons)
  exact {
    toNumbered := h.toNumbered.cons hplain hid
    start_le := fun e he => by
      rcases List.mem_cons.mp he with rfl | he
      · exact hstart
      · exact h.start_le e he
    whole := fun e he hnone => by
      rcases List.mem_cons.mp he with rfl | he
      · refine hwhole (by_contra fun hne => ?_)
        obtain ⟨e, he, heq⟩ := h.exists_child hne
        exact hnone e (List.mem_cons_of_mem _ he) heq
      · exact h.whole e he fun e' he' => hnone e' (List.mem_cons_of_mem _ he')
    deep := fun e he => by
      rcases List.mem_cons.mp he with rfl | he
      · exact le_refl _
      · have := h.deep e he
        omega
    placed := fun before e after hsplit => by
      cases before with
      | nil =>
        obtain ⟨rfl, -⟩ := List.cons.inj hsplit
        exact .inl ⟨_, List.mem_singleton_self _, id, rfl⟩
      | cons b before =>
        obtain ⟨rfl, hcs⟩ := List.cons.inj hsplit
        refine .inr ?_
        rcases h.placed before e after hcs with ⟨d, hd, id', rfl⟩ | hhas
        · -- a chunk right below: everything before it is below, too
          have hd' := hunder d hd
          refine ⟨[], _, before, rfl, rfl,
            ⟨hd'.depth_eq, hd'.fullPath_eq, hd'.start_le, hd'.le_end⟩, fun m hm => ?_⟩
          exact h.deep m (by rw [hcs]; exact List.mem_append_left _ hm)
        · exact hhas.append [_]
    apart := by
      refine List.pairwise_cons.mpr ⟨fun e he hsame => ?_, h.apart⟩
      -- no chunk below has the parent of the chunk above
      rcases h.top_or_parent he with ⟨d, -, id', rfl⟩ | ⟨p, hp, hpid⟩
      · exact absurd (hparent id hsame) hfresh
      · exact absurd (hparent p.id (hsame.trans hpid)) (hbelow p hp)
    tops := by
      have hnone : cs.filter (·.depth = c.depth) = [] := by
        refine List.filter_eq_nil_iff.mpr fun e he => ?_
        have := h.deep e he
        simp only [decide_eq_true_eq]
        omega
      simp [hnone, chunk, Chunk.lineRange] }

/-- Drafts that can be listed can be listed one after the other. -/
theorem listed_of_list {ds : List Draft}
    (hlist : ∀ d ∈ ds, ∀ seen, (∀ id, parent = some id → Issued seen id) →
      Listed lines parent depth seen [d] (list parent seen d).1 (list parent seen d).2)
    (hapart : ds.Pairwise fun a b => a.chunk.endLine < b.chunk.startLine) (seen : List String)
    (hparent : ∀ id, parent = some id → Issued seen id) :
    Listed lines parent depth seen ds (listAll parent seen ds).1 (listAll parent seen ds).2 := by
  induction ds generalizing seen with
  | nil =>
    rw [listAll]
    exact .nil
  | cons d ds ih =>
    obtain ⟨hbeside, hapart⟩ := List.pairwise_cons.mp hapart
    have hfirst := hlist d List.mem_cons_self seen hparent
    have hrest := ih (fun e he => hlist e (List.mem_cons_of_mem d he)) hapart (list parent seen d).2
      fun id hid => (hparent id hid).mono hfirst.seen_le
    rw [listAll]
    exact hfirst.append hrest hparent hbeside

theorem listed_list {d : Draft} (hnested : d.Nested lines) (parent : Option String)
    (seen : List String) (hparent : ∀ id, parent = some id → Issued seen id) :
    Listed lines parent d.chunk.depth seen [d] (list parent seen d).1 (list parent seen d).2 := by
  induction hnested generalizing parent seen with
  | @mk c ds hplain hstart hwhole hunder hapart hbelow ih =>
    have hlist : Listed lines (some (freshId seen c.id)) (c.depth + 1) (c.id :: seen) ds
        (listAll (some (freshId seen c.id)) (c.id :: seen) ds).1
        (listAll (some (freshId seen c.id)) (c.id :: seen) ds).2 := by
      refine listed_of_list (fun d hd seen hparent => ?_) hapart _ fun id hid => ?_
      · rw [← (hunder d hd).depth_eq]
        exact ih d hd _ seen hparent
      · exact Option.some.inj hid ▸ issued_freshId hplain seen
    rw [list]
    exact hlist.cons rfl (.mk hplain hstart hwhole hunder hapart hbelow) hparent

/-- Listing drafts in pre-order keeps every chunk right below its parent. -/
theorem listed_listAll {ds : List Draft} (hnested : ∀ d ∈ ds, d.Nested lines)
    (hdepth : ∀ d ∈ ds, d.chunk.depth = depth)
    (hapart : ds.Pairwise fun a b => a.chunk.endLine < b.chunk.startLine) (seen : List String)
    (hparent : ∀ id, parent = some id → Issued seen id) :
    Listed lines parent depth seen ds (listAll parent seen ds).1 (listAll parent seen ds).2 := by
  refine listed_of_list (fun d hd seen hparent => ?_) hapart seen hparent
  rw [← hdepth d hd]
  exact listed_list (hnested d hd) parent seen hparent

end Draft

end SourceIndex
