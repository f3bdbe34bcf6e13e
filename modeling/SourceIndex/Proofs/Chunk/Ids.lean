import Mathlib
import SourceIndex.Proofs.Chunk.Emitted
import SourceIndex.Proofs.Chunk.Windows

/-! # Ids of chunks

The chunks of a file with a tree have different ids, whatever their digests are, because an id that
occurs again is numbered (`Draft.numbered_listAll`). Line windows are not numbered; they begin on
different lines. So within a file ids tell chunks apart if they tell lines apart
(`Chunk.nodup_ids_ofFile`).
-/

set_option autoImplicit false

namespace SourceIndex

namespace Draft

/-! ## Counts -/

/-- An id with its count, which is left out the first time. -/
def numbered (id : String) (count : Nat) : String :=
  if 1 < count then id ++ "#" ++ toString count else id

theorem freshId_eq (seen : List String) (id : String) :
    freshId seen id = numbered id (seen.count id + 1) := rfl

theorem takeWhile_numbered {id : String} (h : '#' ∉ id.toList) (count : Nat) :
    (numbered id count).toList.takeWhile (· != '#') = id.toList := by
  have hall : ∀ c ∈ id.toList, (c != '#') = true := by
    intro c hc
    simp only [bne_iff_ne, ne_eq]
    rintro rfl
    exact h hc
  rw [numbered]
  split
  · rw [String.toList_append, String.toList_append, List.append_assoc,
      List.takeWhile_append_of_pos hall]
    simp
  · exact List.takeWhile_eq_self_iff.mpr hall

theorem toString_inj {m n : Nat} (h : toString m = toString n) : m = n := by
  have hdigits := congrArg (fun text => Nat.ofDigitChars 10 text.toList 0) h
  simpa only [Nat.toString_eq_repr, Nat.toList_repr, Nat.ofDigitChars_ten_toDigits] using hdigits

/-- No two ids with counts are the same. -/
theorem numbered_inj {a b : String} {m n : Nat} (ha : '#' ∉ a.toList) (hb : '#' ∉ b.toList)
    (hm : 0 < m) (hn : 0 < n) (h : numbered a m = numbered b n) : a = b ∧ m = n := by
  have hab : a = b := by
    rw [← String.toList_inj, ← takeWhile_numbered ha m, ← takeWhile_numbered hb n, h]
  subst hab
  refine ⟨rfl, ?_⟩
  have hlength := congrArg String.length h
  simp only [numbered] at h hlength
  by_cases hmany : 1 < m <;> by_cases hmany' : 1 < n
  · rw [if_pos hmany, if_pos hmany'] at h
    exact toString_inj (by simpa [← String.toList_inj] using h)
  · rw [if_pos hmany, if_neg hmany', String.length_append, String.length_append] at hlength
    have hmark : "#".length = 1 := rfl
    omega
  · rw [if_neg hmany, if_pos hmany', String.length_append, String.length_append] at hlength
    have hmark : "#".length = 1 := rfl
    omega
  · omega

/-- The id was given out when the ids `seen` were met. -/
def Issued (seen : List String) (id : String) : Prop :=
  ∃ base count, '#' ∉ base.toList ∧ 0 < count ∧ count ≤ seen.count base ∧ id = numbered base count

theorem Issued.mono {seen seen' : List String} {id : String} (h : Issued seen id)
    (hle : ∀ b, seen.count b ≤ seen'.count b) : Issued seen' id := by
  obtain ⟨base, count, hplain, hpos, hcount, rfl⟩ := h
  exact ⟨base, count, hplain, hpos, hcount.trans (hle base), rfl⟩

theorem issued_freshId {id : String} (h : '#' ∉ id.toList) (seen : List String) :
    Issued (id :: seen) (freshId seen id) :=
  ⟨id, seen.count id + 1, h, Nat.succ_pos _, by simp, freshId_eq seen id⟩

theorem not_issued_freshId {id : String} (h : '#' ∉ id.toList) (seen : List String) :
    ¬ Issued seen (freshId seen id) := by
  rintro ⟨base, count, hplain, hpos, hcount, heq⟩
  obtain ⟨rfl, rfl⟩ := numbered_inj h hplain (Nat.succ_pos _) hpos heq
  omega

/-! ## Lists -/

/-- The ids of the chunks `cs` are new, and no two are the same. The ids in `seen` were met before,
those in `seen'` also with the chunks. -/
structure Numbered (seen : List String) (cs : List Chunk) (seen' : List String) : Prop where
  seen_le : ∀ b, seen.count b ≤ seen'.count b
  issued : ∀ c ∈ cs, Issued seen' c.id ∧ ¬ Issued seen c.id
  distinct : (cs.map Chunk.id).Nodup

namespace Numbered

variable {seen seen' seen'' : List String} {cs rest : List Chunk}

theorem nil : Numbered seen [] seen where
  seen_le _ := le_refl _
  issued _ hc := by cases hc
  distinct := List.nodup_nil

theorem append (h : Numbered seen cs seen') (hrest : Numbered seen' rest seen'') :
    Numbered seen (cs ++ rest) seen'' where
  seen_le b := (h.seen_le b).trans (hrest.seen_le b)
  issued c hc := by
    rcases List.mem_append.mp hc with hc | hc
    · obtain ⟨hissued, hnot⟩ := h.issued c hc
      exact ⟨hissued.mono hrest.seen_le, hnot⟩
    · obtain ⟨hissued, hnot⟩ := hrest.issued c hc
      exact ⟨hissued, fun hold => hnot (hold.mono h.seen_le)⟩
  distinct := by
    rw [List.map_append, List.nodup_append]
    refine ⟨h.distinct, hrest.distinct, fun a ha b hb hab => ?_⟩
    obtain ⟨c, hc, rfl⟩ := List.mem_map.mp ha
    obtain ⟨e, he, rfl⟩ := List.mem_map.mp hb
    exact (hrest.issued e he).2 (hab ▸ (h.issued c hc).1)

/-- A chunk whose id is made fresh comes before the others. -/
theorem cons {c : Chunk} {id : String} {parent : Option String} (hplain : '#' ∉ c.id.toList)
    (hid : id = freshId seen c.id) (h : Numbered (c.id :: seen) cs seen') :
    Numbered seen ({ c with id, parentId := parent } :: cs) seen' where
  seen_le b := (List.count_le_count_cons).trans (h.seen_le b)
  issued e he := by
    rcases List.mem_cons.mp he with rfl | he
    · have hissued : Issued (c.id :: seen) id := hid ▸ issued_freshId hplain seen
      exact ⟨hissued.mono h.seen_le, hid ▸ not_issued_freshId hplain seen⟩
    · obtain ⟨hissued, hnot⟩ := h.issued e he
      exact ⟨hissued, fun hold => hnot (hold.mono fun b => List.count_le_count_cons)⟩
  distinct := by
    refine List.nodup_cons.mpr ⟨fun hmem => ?_, h.distinct⟩
    obtain ⟨e, he, heq⟩ := List.mem_map.mp hmem
    have hissued : Issued (c.id :: seen) id := hid ▸ issued_freshId hplain seen
    exact (h.issued e he).2 (heq ▸ hissued)

end Numbered

mutual

theorem numbered_list {path : Path} (d : Draft) (h : All (Chunk.IsDrafted path) d)
    (parent : Option String) (seen : List String) :
    Numbered seen (list parent seen d).1 (list parent seen d).2 := by
  match d with
  | .mk c ds =>
      rw [list]
      exact (numbered_listAll ds h.2 _ _).cons h.1.plain rfl

/-- Listing drafts gives all chunks different ids. -/
theorem numbered_listAll {path : Path} (ds : List Draft) (h : AllIn (Chunk.IsDrafted path) ds)
    (parent : Option String) (seen : List String) :
    Numbered seen (listAll parent seen ds).1 (listAll parent seen ds).2 := by
  match ds with
  | [] =>
      rw [listAll]
      exact .nil
  | d :: ds =>
      rw [listAll]
      exact (numbered_list d h.1 _ _).append (numbered_listAll ds h.2 _ _)

end

end Draft

/-! ## Files -/

namespace Chunk

/-- Each window begins after the one before it. -/
theorem pairwise_windows (file : SourceFile) (limits : ChunkLimits) :
    (windows file limits).Pairwise fun c e => c.startLine < e.startLine := by
  have hstart : ∀ {start : Nat} {ls : List String} {c : Chunk},
      ofWindow? file start ls = some c → c.startLine = start + 1 := by
    intro start ls c hc
    simp only [ofWindow?, Option.ite_none_left_eq_some] at hc
    rw [← Option.some.inj hc.2]
    rfl
  rw [windows, windowsFrom_eq, List.pairwise_filterMap, List.pairwise_map]
  refine List.pairwise_lt_range.imp fun {i j} hij c hc e he => ?_
  have hlt : i * limits.step < j * limits.step := Nat.mul_lt_mul_of_pos_right hij limits.step_pos
  rw [hstart hc, hstart he]
  omega

theorem nodup_ids_ofTree (rules : Rules) (file : SourceFile) (limits : ChunkLimits) (root : Node) :
    ((ofTree rules file limits root).map Chunk.id).Nodup :=
  (Draft.numbered_listAll _ (allIn_drafts _ (fun _ hcut => hcut.drafted) root) none []).distinct

theorem nodup_ids_windows {file : SourceFile} {limits : ChunkLimits}
    (h : ∀ c ∈ windows file limits, ∀ e ∈ windows file limits, c.id = e.id →
      c.startLine = e.startLine) : ((windows file limits).map Chunk.id).Nodup := by
  refine List.pairwise_map.mpr ((pairwise_windows file limits).imp_of_mem ?_)
  intro c e hc he hlt hsame
  have hline := h c hc e he hsame
  omega

/-- The chunks of a file have different ids, unless windows on different lines have the same one. -/
theorem nodup_ids_ofFile {parse : Parse} {file : SourceFile} {limits : ChunkLimits}
    (h : ∀ c ∈ (ofFile parse file limits).chunks, ∀ e ∈ (ofFile parse file limits).chunks,
      c.id = e.id → c.startLine = e.startLine) :
    ((ofFile parse file limits).chunks.map Chunk.id).Nodup := by
  revert h
  rw [ofFile]
  split
  · exact fun _ => List.nodup_nil
  · split
    · exact nodup_ids_windows
    · split
      · exact nodup_ids_windows
      · exact fun _ => nodup_ids_ofTree _ _ _ _

end Chunk

end SourceIndex
