import Mathlib
import SourceIndex.Search.Fusion

/-! # Ranks in a fused ranking

Fusion neither drops an id nor repeats one, and every hit knows where the two rankings have it.
`Fusion.Ranks` says so of hits and the ids of two rankings. One more entry of a ranking keeps it
(`Fusion.Ranks.update`), hence so does collecting a whole ranking (`Fusion.Ranks.collect`), and the
order of the hits does not matter (`Fusion.Ranks.perm`).
-/

set_option autoImplicit false

namespace SourceIndex

variable {σ : Type}

/-! ## Hits -/

namespace FusedHit

/-- The position in one of the rankings. -/
def rankOn (hit : FusedHit σ) : RankingSide → Option Nat
  | .vector => hit.vectorRank
  | .keyword => hit.keywordRank

theorem rankOn_unranked (score : σ) (id : String) (side : RankingSide) :
    (unranked score id).rankOn side = none := by
  cases side <;> rfl

/-- A hit that one of the rankings has at a position, with its share and its score. -/
def enter [Add σ] (side : RankingSide) (rank : Nat) (share score : σ) (hit : FusedHit σ) :
    FusedHit σ :=
  (hit.add share).place side rank score

@[simp] theorem id_place (hit : FusedHit σ) (side : RankingSide) (rank : Nat) (score : σ) :
    (hit.place side rank score).id = hit.id := by
  cases side <;> rfl

@[simp] theorem id_enter [Add σ] (side : RankingSide) (rank : Nat) (share score : σ)
    (hit : FusedHit σ) : (enter side rank share score hit).id = hit.id :=
  id_place _ _ _ _

/-- Placing a hit on one side leaves the other side as it was. -/
theorem rankOn_place (hit : FusedHit σ) (side side' : RankingSide) (rank : Nat) (score : σ) :
    (hit.place side rank score).rankOn side' =
      if side' = side then some rank else hit.rankOn side' := by
  cases side <;> cases side' <;> rfl

theorem rankOn_enter [Add σ] (side side' : RankingSide) (rank : Nat) (share score : σ)
    (hit : FusedHit σ) : (enter side rank share score hit).rankOn side' =
      if side' = side then some rank else hit.rankOn side' := by
  cases side <;> cases side' <;> rfl

end FusedHit

/-! ## Positions -/

/-- The position of an id among others, counted from one. -/
def position (ids : List String) (id : String) : Option Nat := (ids.idxOf? id).map (· + 1)

theorem position_isSome_iff (ids : List String) (id : String) :
    (position ids id).isSome = true ↔ id ∈ ids := by
  rw [position, Option.isSome_map, List.isSome_idxOf?]

theorem position_of_not_mem {ids : List String} {id : String} (h : id ∉ ids) :
    position ids id = none := by
  rw [position, List.idxOf?_eq_none_iff.mpr h]
  rfl

theorem position_append_of_ne {ids : List String} {id new : String} (hne : id ≠ new) :
    position (ids ++ [new]) id = position ids id := by
  unfold position List.idxOf?
  rw [List.findIdx?_append]
  simp [Ne.symm hne]

theorem position_append_self {ids : List String} {id : String} (h : id ∉ ids) :
    position (ids ++ [id]) id = some (ids.length + 1) := by
  unfold position List.idxOf?
  have hnone : ids.findIdx? (· == id) = none := by
    rw [List.findIdx?_eq_none_iff]
    intro x hx
    exact beq_false_of_ne fun heq => h (heq ▸ hx)
  rw [List.findIdx?_append, hnone]
  simp

theorem position_getElem {ids : List String} (h : ids.Nodup) {i : Nat} (hi : i < ids.length) :
    position ids ids[i] = some (i + 1) := by
  have hindex : ids.idxOf? ids[i] = some i := by
    refine List.idxOf?_eq_some_iff.mpr ⟨hi, rfl, fun j hj heq => ?_⟩
    have hsame := h.getElem_inj_iff.mp heq
    omega
  rw [position, hindex]
  rfl

/-! ## Collecting -/

namespace Fusion

/-- Hits of two rankings, whose ids are `ids`: there is one hit for every id of either, and it knows
its positions. -/
structure Ranks (ids : RankingSide → List String) (hits : List (FusedHit σ)) : Prop where
  distinct : (hits.map FusedHit.id).Nodup
  mem_iff : ∀ id, id ∈ hits.map FusedHit.id ↔ ∃ side, id ∈ ids side
  rankOn_eq : ∀ hit ∈ hits, ∀ side, hit.rankOn side = position (ids side) hit.id

theorem Ranks.nil : Ranks (fun _ => []) ([] : List (FusedHit σ)) where
  distinct := List.nodup_nil
  mem_iff id := by simp
  rankOn_eq hit hhit := by cases hhit

theorem Ranks.perm {ids : RankingSide → List String} {hits hits' : List (FusedHit σ)}
    (h : Ranks ids hits) (hperm : hits.Perm hits') : Ranks ids hits' where
  distinct := (hperm.map FusedHit.id).nodup_iff.mp h.distinct
  mem_iff id := by rw [← h.mem_iff, (hperm.map FusedHit.id).mem_iff]
  rankOn_eq hit hhit := h.rankOn_eq hit (hperm.mem_iff.mpr hhit)

theorem Ranks.length_eq {ids : RankingSide → List String} {hits : List (FusedHit σ)}
    (h : Ranks ids hits) :
    hits.length = ((ids .vector).toFinset ∪ (ids .keyword).toFinset).card := by
  have hset : (hits.map FusedHit.id).toFinset = (ids .vector).toFinset ∪ (ids .keyword).toFinset := by
    ext id
    rw [List.mem_toFinset, h.mem_iff, Finset.mem_union, List.mem_toFinset, List.mem_toFinset]
    constructor
    · rintro ⟨side, hmem⟩
      cases side with
      | vector => exact .inl hmem
      | keyword => exact .inr hmem
    · rintro (hmem | hmem)
      · exact ⟨.vector, hmem⟩
      · exact ⟨.keyword, hmem⟩
  rw [← hset, List.toFinset_card_of_nodup h.distinct, List.length_map]

/-! ### One entry -/

section Update

variable {id : String} {fresh : FusedHit σ} {change : FusedHit σ → FusedHit σ}

/-- The ids stay where they are, and a new one comes last. -/
theorem map_id_update (hfresh : fresh.id = id) (hchange : ∀ hit, (change hit).id = hit.id)
    (hits : List (FusedHit σ)) :
    (update id fresh change hits).map FusedHit.id =
      if id ∈ hits.map FusedHit.id then hits.map FusedHit.id else hits.map FusedHit.id ++ [id] := by
  induction hits with
  | nil => simp [update, hchange, hfresh]
  | cons hit rest ih =>
    rw [update]
    by_cases hid : hit.id = id
    · simp [hid, hchange]
    · rw [if_neg hid, List.map_cons, ih, List.map_cons]
      by_cases hmem : id ∈ rest.map FusedHit.id
      · rw [if_pos hmem, if_pos (List.mem_cons_of_mem _ hmem)]
      · have hnot : id ∉ hit.id :: rest.map FusedHit.id := by
          simp only [List.mem_cons, not_or]
          exact ⟨Ne.symm hid, hmem⟩
        rw [if_neg hmem, if_neg hnot, List.cons_append]

/-- A hit with another id was there before; the hit with the id was changed, or is new. -/
theorem mem_update {hits : List (FusedHit σ)} (hdistinct : (hits.map FusedHit.id).Nodup) {hit : FusedHit σ}
    (hhit : hit ∈ update id fresh change hits) :
    (hit ∈ hits ∧ hit.id ≠ id) ∨ (∃ old ∈ hits, old.id = id ∧ hit = change old) ∨
      (id ∉ hits.map FusedHit.id ∧ hit = change fresh) := by
  induction hits with
  | nil =>
    obtain rfl := List.mem_singleton.mp hhit
    exact .inr (.inr ⟨List.not_mem_nil, rfl⟩)
  | cons first rest ih =>
    obtain ⟨hnot, hrest⟩ := List.nodup_cons.mp hdistinct
    rw [update] at hhit
    by_cases hid : first.id = id
    · rw [if_pos hid] at hhit
      rcases List.mem_cons.mp hhit with rfl | hhit
      · exact .inr (.inl ⟨first, List.mem_cons_self, hid, rfl⟩)
      · -- no other hit has the id
        refine .inl ⟨List.mem_cons_of_mem _ hhit, fun heq => hnot ?_⟩
        exact List.mem_map.mpr ⟨hit, hhit, heq.trans hid.symm⟩
    · rw [if_neg hid] at hhit
      rcases List.mem_cons.mp hhit with rfl | hhit
      · exact .inl ⟨List.mem_cons_self, hid⟩
      · rcases ih hrest hhit with ⟨hmem, hne⟩ | ⟨old, hold, heq, hhit⟩ | ⟨hnone, hhit⟩
        · exact .inl ⟨List.mem_cons_of_mem _ hmem, hne⟩
        · exact .inr (.inl ⟨old, List.mem_cons_of_mem _ hold, heq, hhit⟩)
        · refine .inr (.inr ⟨?_, hhit⟩)
          simp only [List.map_cons, List.mem_cons, not_or]
          exact ⟨Ne.symm hid, hnone⟩

end Update

/-! ### Rankings -/

variable [Add σ]

omit [Add σ] in
/-- The ids of all sides after more of them on one side. -/
theorem exists_mem_update {ids : RankingSide → List String} {side : RankingSide}
    {more : List String} {id : String} :
    (∃ side', id ∈ Function.update ids side (ids side ++ more) side') ↔
      (∃ side', id ∈ ids side') ∨ id ∈ more := by
  constructor
  · rintro ⟨side', hmem⟩
    rw [Function.update_apply] at hmem
    split at hmem
    · exact (List.mem_append.mp hmem).imp_left fun hold => ⟨side, hold⟩
    · exact .inl ⟨side', hmem⟩
  · rintro (⟨side', hmem⟩ | hmem)
    · refine ⟨side', ?_⟩
      rw [Function.update_apply]
      split
      · rename_i heq
        exact List.mem_append_left _ (heq ▸ hmem)
      · exact hmem
    · exact ⟨side, by rw [Function.update_self]; exact List.mem_append_right _ hmem⟩

/-- One more entry of a ranking, whose id the ranking does not have yet. -/
theorem Ranks.update {ids : RankingSide → List String} {hits : List (FusedHit σ)}
    (h : Ranks ids hits) (side : RankingSide) {id : String} (hnew : id ∉ ids side)
    (zero share score : σ) :
    Ranks (Function.update ids side (ids side ++ [id]))
      (Fusion.update id (.unranked zero id)
        (FusedHit.enter side ((ids side).length + 1) share score) hits) := by
  have hfresh : (FusedHit.unranked zero id).id = id := rfl
  have hids := map_id_update hfresh (FusedHit.id_enter side ((ids side).length + 1) share score) hits
  refine ⟨?_, fun id' => ?_, fun hit hhit side' => ?_⟩
  · rw [hids]
    split
    · exact h.distinct
    · rename_i hnot
      exact h.distinct.append (List.nodup_singleton id) (List.disjoint_singleton.mpr hnot)
  · rw [exists_mem_update, ← h.mem_iff, hids]
    split
    · rename_i hmem
      constructor
      · exact .inl
      · rintro (hold | hid)
        · exact hold
        · exact List.mem_singleton.mp hid ▸ hmem
    · exact List.mem_append
  · rw [Function.update_apply]
    rcases mem_update h.distinct hhit with ⟨hmem, hne⟩ | ⟨old, hold, hid, rfl⟩ | ⟨hnone, rfl⟩
    · -- another id keeps its positions
      rw [h.rankOn_eq hit hmem side']
      split
      · rename_i heq
        rw [position_append_of_ne hne, heq]
      · rfl
    · rw [FusedHit.rankOn_enter, FusedHit.id_enter, hid]
      split
      · exact (position_append_self hnew).symm
      · exact hid ▸ h.rankOn_eq old hold side'
    · -- a new id has no position on the other side
      rw [FusedHit.rankOn_enter, FusedHit.id_enter, FusedHit.rankOn_unranked]
      show _ = position _ id
      split
      · exact (position_append_self hnew).symm
      · exact (position_of_not_mem fun hmem => hnone ((h.mem_iff id).mpr ⟨side', hmem⟩)).symm

/-- A ranking with different ids is collected entry by entry. -/
theorem Ranks.collect {ids : RankingSide → List String} {hits : List (FusedHit σ)}
    (h : Ranks ids hits) (side : RankingSide) (zero : σ) (share : Nat → σ)
    {entries : List (Ranked σ)} (hdistinct : (ids side ++ entries.map Ranked.id).Nodup) :
    Ranks (Function.update ids side (ids side ++ entries.map Ranked.id))
      (Fusion.collect zero share side ((ids side).length + 1) entries hits) := by
  induction entries generalizing ids hits with
  | nil =>
    rw [Fusion.collect, List.map_nil, List.append_nil, Function.update_eq_self]
    exact h
  | cons entry rest ih =>
    have hnew : entry.id ∉ ids side := by
      intro hmem
      exact (List.nodup_append.mp hdistinct).2.2 _ hmem _ (by simp) rfl
    have hassoc : ids side ++ (entry :: rest).map Ranked.id =
        (ids side ++ [entry.id]) ++ rest.map Ranked.id := by simp
    have hstep := h.update side hnew zero (share ((ids side).length + 1)) entry.score
    have hrest := ih hstep (by rw [Function.update_self, ← hassoc]; exact hdistinct)
    -- the other entries begin one position later
    rw [Function.update_self, Function.update_idem, List.length_append, ← hassoc] at hrest
    exact hrest

/-- The ids of two rankings by the side they are on. -/
def sides (vector keyword : List (Ranked σ)) : RankingSide → List String
  | .vector => vector.map Ranked.id
  | .keyword => keyword.map Ranked.id

/-- The fused hits of two rankings: each id of either once, with its positions. -/
theorem ranks_fuseWith [LT σ] [DecidableLT σ] (zero : σ) (share : Nat → σ)
    {vector keyword : List (Ranked σ)} (hvector : (vector.map Ranked.id).Nodup)
    (hkeyword : (keyword.map Ranked.id).Nodup) :
    Ranks (sides vector keyword) (fuseWith zero share vector keyword) := by
  have hfirst := Ranks.nil.collect .vector zero share (by simpa using hvector)
  have hboth := hfirst.collect .keyword zero share (by simpa using hkeyword)
  have hsides : Function.update (Function.update (fun _ => []) .vector (vector.map Ranked.id))
      .keyword (keyword.map Ranked.id) = sides vector keyword := by
    funext side
    cases side <;> rfl
  refine Ranks.perm ?_ (List.mergeSort_perm _ _).symm
  rw [← hsides]
  exact hboth

omit [Add σ] in
/-- A single ranking has positions on its own side only. -/
theorem ranks_single (side : RankingSide) {entries : List (Ranked Float)}
    (hdistinct : (entries.map Ranked.id).Nodup) :
    Ranks (Function.update (fun _ => []) side (entries.map Ranked.id)) (single side entries) := by
  have hids : (single side entries).map FusedHit.id = entries.map Ranked.id := by
    refine List.ext_getElem? fun i => ?_
    simp only [single, List.getElem?_map, List.getElem?_mapIdx, Option.map_map]
    congr 1
    funext entry
    exact FusedHit.id_place _ _ _ _
  refine ⟨hids ▸ hdistinct, fun id => ?_, fun hit hhit side' => ?_⟩
  · rw [hids]
    constructor
    · exact fun hmem => ⟨side, by rwa [Function.update_self]⟩
    · rintro ⟨side', hmem⟩
      by_cases heq : side' = side
      · rwa [heq, Function.update_self] at hmem
      · rw [Function.update_of_ne heq] at hmem
        cases hmem
  · obtain ⟨i, hi, rfl⟩ := List.mem_iff_getElem.mp hhit
    have hlength : i < (entries.map Ranked.id).length := by
      rw [← hids, List.length_map]
      exact hi
    simp only [single, List.getElem_mapIdx, FusedHit.rankOn_place, FusedHit.id_place,
      FusedHit.rankOn_unranked, Function.update_apply]
    split
    · rw [← position_getElem hdistinct hlength, List.getElem_map]
      rfl
    · rfl

end Fusion

end SourceIndex
