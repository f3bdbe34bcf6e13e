import Mathlib
import SourceIndex.Proofs.Search.Fusion
import SourceIndex.Proofs.Search.Order

/-! # What a fused ranking tells

Two rankings are fused entry by entry: each entry contributes the share of its position to the hit of
its id (`Fusion.contribute`). So a hit tells what the contributions to its id say together
(`Fusion.Tells`), in the order in which they came, and one more contribution changes only the hit of its
own id (`Fusion.Gathers.contribute`). An id may come twice in a ranking.

`Fusion.Fuses` puts that in terms of the places where an id occurs, and `Fusion.fuse_fuses` adds the
order of the hits, for doubles as far as their scores can be compared, and for exact numbers.
-/

set_option autoImplicit false

namespace SourceIndex

variable {σ : Type}

/-! ## Hits -/

namespace FusedHit

/-- The score in one of the rankings. -/
def scoreOn (hit : FusedHit σ) : RankingSide → Option σ
  | .vector => hit.vectorScore
  | .keyword => hit.keywordScore

theorem scoreOn_unranked (score : σ) (id : String) (side : RankingSide) :
    (unranked score id).scoreOn side = none := by
  cases side <;> rfl

theorem scoreOn_enter [Add σ] (side side' : RankingSide) (rank : Nat) (share score : σ)
    (hit : FusedHit σ) : (enter side rank share score hit).scoreOn side' =
      if side' = side then some score else hit.scoreOn side' := by
  cases side <;> cases side' <;> rfl

theorem score_enter [Add σ] (side : RankingSide) (rank : Nat) (share score : σ) (hit : FusedHit σ) :
    (enter side rank share score hit).score = hit.score + share := by
  cases side <;> rfl

end FusedHit

namespace Fusion

/-! ## Contributions -/

/-- An entry of one of the rankings, and its position there. -/
structure Contribution (σ : Type) where
  side : RankingSide
  rank : Nat
  entry : Ranked σ

/-- The entries of a ranking, the first of which has the position `rank`. -/
def contributions (side : RankingSide) (rank : Nat) (entries : List (Ranked σ)) :
    List (Contribution σ) :=
  (entries.zipIdx rank).map fun e => ⟨side, e.2, e.1⟩

/-- What is contributed to an id. -/
def toId (cs : List (Contribution σ)) (id : String) : List (Contribution σ) :=
  cs.filter fun c => c.entry.id = id

theorem toId_append (cs ds : List (Contribution σ)) (id : String) :
    toId (cs ++ ds) id = toId cs id ++ toId ds id :=
  List.filter_append _ _

theorem toId_concat (cs : List (Contribution σ)) (c : Contribution σ) (id : String) :
    toId (cs ++ [c]) id = if c.entry.id = id then toId cs id ++ [c] else toId cs id := by
  rw [toId_append]
  by_cases hid : c.entry.id = id <;> simp [toId, hid]

section Contribute

variable [Add σ] (zero : σ) (share : Nat → σ)

/-- Hits after one more contribution. -/
def contribute (hits : List (FusedHit σ)) (c : Contribution σ) : List (FusedHit σ) :=
  update c.entry.id (.unranked zero c.entry.id)
    (FusedHit.enter c.side c.rank (share c.rank) c.entry.score) hits

theorem collect_eq_foldl (side : RankingSide) (rank : Nat) (entries : List (Ranked σ))
    (hits : List (FusedHit σ)) :
    collect zero share side rank entries hits =
      (contributions side rank entries).foldl (contribute zero share) hits := by
  induction entries generalizing rank hits with
  | nil => rfl
  | cons entry rest ih =>
      rw [collect, ih]
      rfl

/-- The hits of two rankings come from the entries of both. -/
theorem hits_eq_foldl (vector keyword : List (Ranked σ)) :
    hits zero share vector keyword =
      (contributions .vector 1 vector ++ contributions .keyword 1 keyword).foldl
        (contribute zero share) [] := by
  rw [hits, collect_eq_foldl, collect_eq_foldl, List.foldl_append]

/-- A hit tells what is contributed to its id: the shares are added up from left to right, and each
ranking has the position and score of its last contribution. -/
structure Tells (cs : List (Contribution σ)) (hit : FusedHit σ) : Prop where
  score_eq : hit.score = ((toId cs hit.id).map fun c => share c.rank).foldl (· + ·) zero
  rankOn_eq : ∀ side, hit.rankOn side =
    ((toId cs hit.id).filter fun c => c.side = side).getLast?.map Contribution.rank
  scoreOn_eq : ∀ side, hit.scoreOn side =
    ((toId cs hit.id).filter fun c => c.side = side).getLast?.map fun c => c.entry.score

/-- There is one hit for every id to which something is contributed, and it tells what that is. -/
structure Gathers (cs : List (Contribution σ)) (hits : List (FusedHit σ)) : Prop where
  distinct : (hits.map FusedHit.id).Nodup
  mem_iff : ∀ id, id ∈ hits.map FusedHit.id ↔ ∃ c ∈ cs, c.entry.id = id
  tells : ∀ hit ∈ hits, Tells zero share cs hit

variable {zero share} {cs : List (Contribution σ)} {hits : List (FusedHit σ)} {hit : FusedHit σ}
  {c : Contribution σ}

theorem Tells.unranked {id : String} (h : toId cs id = []) :
    Tells zero share cs (.unranked zero id) where
  score_eq := by
    show zero = ((toId cs id).map _).foldl _ zero
    rw [h]
    rfl
  rankOn_eq side := by
    show (FusedHit.unranked zero id).rankOn side = ((toId cs id).filter _).getLast?.map _
    rw [h, FusedHit.rankOn_unranked]
    rfl
  scoreOn_eq side := by
    show (FusedHit.unranked zero id).scoreOn side = ((toId cs id).filter _).getLast?.map _
    rw [h, FusedHit.scoreOn_unranked]
    rfl

/-- A contribution to another id does not matter. -/
theorem Tells.of_ne (h : Tells zero share cs hit) (hne : hit.id ≠ c.entry.id) :
    Tells zero share (cs ++ [c]) hit := by
  have hsame : toId (cs ++ [c]) hit.id = toId cs hit.id := by
    rw [toId_concat, if_neg hne.symm]
  exact ⟨hsame ▸ h.score_eq, hsame ▸ h.rankOn_eq, hsame ▸ h.scoreOn_eq⟩

/-- A contribution to the id of a hit enters it. -/
theorem Tells.enter (h : Tells zero share cs hit) (hid : hit.id = c.entry.id) :
    Tells zero share (cs ++ [c])
      (FusedHit.enter c.side c.rank (share c.rank) c.entry.score hit) := by
  have hmore : toId (cs ++ [c]) hit.id = toId cs hit.id ++ [c] := by
    rw [toId_concat, if_pos hid.symm]
  refine ⟨?_, fun side => ?_, fun side => ?_⟩
  · rw [FusedHit.id_enter, hmore, FusedHit.score_enter, h.score_eq]
    simp
  · rw [FusedHit.id_enter, hmore, FusedHit.rankOn_enter, h.rankOn_eq, List.filter_append]
    by_cases hside : side = c.side
    · simp [hside]
    · simp [hside, Ne.symm hside]
  · rw [FusedHit.id_enter, hmore, FusedHit.scoreOn_enter, h.scoreOn_eq, List.filter_append]
    by_cases hside : side = c.side
    · simp [hside]
    · simp [hside, Ne.symm hside]

theorem Gathers.nil : Gathers zero share [] [] where
  distinct := List.nodup_nil
  mem_iff id := by simp
  tells hit hhit := by cases hhit

theorem Gathers.contribute (h : Gathers zero share cs hits) (c : Contribution σ) :
    Gathers zero share (cs ++ [c]) (contribute zero share hits c) := by
  have hfresh : (FusedHit.unranked zero c.entry.id).id = c.entry.id := rfl
  have hids : (Fusion.contribute zero share hits c).map FusedHit.id =
      if c.entry.id ∈ hits.map FusedHit.id then hits.map FusedHit.id
      else hits.map FusedHit.id ++ [c.entry.id] :=
    map_id_update hfresh (FusedHit.id_enter c.side c.rank (share c.rank) c.entry.score) hits
  refine ⟨?_, fun id => ?_, fun hit hhit => ?_⟩
  · rw [hids]
    split
    · exact h.distinct
    · rename_i hnot
      exact h.distinct.append (List.nodup_singleton _) (List.disjoint_singleton.mpr hnot)
  · have hmem : id ∈ (Fusion.contribute zero share hits c).map FusedHit.id ↔
        id ∈ hits.map FusedHit.id ∨ id = c.entry.id := by
      rw [hids]
      split
      · rename_i hold
        exact ⟨.inl, fun hid => hid.elim (fun hid => hid) fun hid => hid ▸ hold⟩
      · rw [List.mem_append, List.mem_singleton]
    rw [hmem, h.mem_iff]
    simp [or_and_right, exists_or, eq_comm]
  · rcases mem_update h.distinct hhit with ⟨hmem, hne⟩ | ⟨old, hold, hid, rfl⟩ | ⟨hnone, rfl⟩
    · exact (h.tells hit hmem).of_ne hne
    · exact (h.tells old hold).enter hid
    · -- nothing was contributed to a new id before
      have hnil : toId cs c.entry.id = [] := by
        refine List.filter_eq_nil_iff.mpr fun d hd hid => hnone ?_
        exact (h.mem_iff _).mpr ⟨d, hd, of_decide_eq_true hid⟩
      exact (Tells.unranked hnil).enter rfl

theorem Gathers.foldl (h : Gathers zero share cs hits) (ds : List (Contribution σ)) :
    Gathers zero share (cs ++ ds) (ds.foldl (Fusion.contribute zero share) hits) := by
  induction ds generalizing cs hits with
  | nil => simpa using h
  | cons d ds ih => simpa using ih (h.contribute d)

end Contribute

/-! ## Occurrences -/

/-- The positions at which an id occurs in a ranking, counted from one, and its scores there. -/
def occurrences (entries : List (Ranked σ)) (id : String) : List (Nat × σ) :=
  ((entries.zipIdx 1).filter fun e => e.1.id = id).map fun e => (e.2, e.1.score)

theorem toId_contributions (side : RankingSide) (entries : List (Ranked σ)) (id : String) :
    (toId (contributions side 1 entries) id).map (fun c => (c.rank, c.entry.score)) =
      occurrences entries id := by
  rw [toId, contributions, List.filter_map, List.map_map]
  rfl

/-- A ranking contributes on its own side only. -/
theorem filter_side_contributions (side side' : RankingSide) (entries : List (Ranked σ)) (id : String) :
    (toId (contributions side 1 entries) id).filter (fun c => c.side = side') =
      if side = side' then toId (contributions side 1 entries) id else [] := by
  have hside : ∀ c ∈ toId (contributions side 1 entries) id, c.side = side := by
    intro c hc
    obtain ⟨e, -, rfl⟩ := List.mem_map.mp (List.mem_of_mem_filter hc)
    rfl
  split
  · rename_i heq
    exact List.filter_eq_self.mpr fun c hc => decide_eq_true ((hside c hc).trans heq)
  · rename_i hne
    exact List.filter_eq_nil_iff.mpr fun c hc heq => hne ((hside c hc).symm.trans (of_decide_eq_true heq))

theorem exists_contribution_iff (side : RankingSide) (entries : List (Ranked σ)) (id : String) :
    (∃ c ∈ contributions side 1 entries, c.entry.id = id) ↔ id ∈ entries.map Ranked.id := by
  constructor
  · rintro ⟨c, hc, rfl⟩
    obtain ⟨e, he, rfl⟩ := List.mem_map.mp hc
    exact List.mem_map_of_mem (List.fst_mem_of_mem_zipIdx he)
  · intro hid
    obtain ⟨entry, hentry, rfl⟩ := List.mem_map.mp hid
    obtain ⟨i, hi, rfl⟩ := List.mem_iff_getElem.mp hentry
    refine ⟨⟨side, 1 + i, entries[i]⟩, List.mem_map.mpr ⟨(entries[i], 1 + i), ?_, rfl⟩, rfl⟩
    exact List.mem_iff_getElem.mpr ⟨i, by simpa using hi, by simp⟩

/-- What it means that hits are the fusion of two rankings. Each id of either ranking has one hit. Its
score is the sum of the shares of all positions at which it occurs, those of the first ranking before
those of the second, added from left to right; its position and score in each ranking are those of the
last place where it occurs there. -/
structure Fuses [Add σ] (zero : σ) (share : Nat → σ) (vector keyword : List (Ranked σ))
    (fused : List (FusedHit σ)) : Prop where
  distinct : (fused.map FusedHit.id).Nodup
  mem_iff : ∀ id, id ∈ fused.map FusedHit.id ↔
    id ∈ vector.map Ranked.id ∨ id ∈ keyword.map Ranked.id
  score_eq : ∀ hit ∈ fused, hit.score =
    ((occurrences vector hit.id ++ occurrences keyword hit.id).map fun o => share o.1).foldl (· + ·) zero
  vector_eq : ∀ hit ∈ fused,
    hit.vectorRank = (occurrences vector hit.id).getLast?.map Prod.fst ∧
      hit.vectorScore = (occurrences vector hit.id).getLast?.map Prod.snd
  keyword_eq : ∀ hit ∈ fused,
    hit.keywordRank = (occurrences keyword hit.id).getLast?.map Prod.fst ∧
      hit.keywordScore = (occurrences keyword hit.id).getLast?.map Prod.snd

section Fuses

variable [Add σ] {zero : σ} {share : Nat → σ} {vector keyword : List (Ranked σ)}
  {fused fused' : List (FusedHit σ)}

theorem Fuses.perm (h : Fuses zero share vector keyword fused) (hperm : fused'.Perm fused) :
    Fuses zero share vector keyword fused' where
  distinct := (hperm.map FusedHit.id).nodup_iff.mpr h.distinct
  mem_iff id := by rw [(hperm.map FusedHit.id).mem_iff, h.mem_iff]
  score_eq hit hhit := h.score_eq hit (hperm.mem_iff.mp hhit)
  vector_eq hit hhit := h.vector_eq hit (hperm.mem_iff.mp hhit)
  keyword_eq hit hhit := h.keyword_eq hit (hperm.mem_iff.mp hhit)

theorem fuses_hits (zero : σ) (share : Nat → σ) (vector keyword : List (Ranked σ)) :
    Fuses zero share vector keyword (hits zero share vector keyword) := by
  have hgathers : Gathers zero share
      (contributions .vector 1 vector ++ contributions .keyword 1 keyword)
      (hits zero share vector keyword) := by
    rw [hits_eq_foldl]
    exact Gathers.nil.foldl _
  have hside : ∀ side id, ((toId (contributions .vector 1 vector ++
      contributions .keyword 1 keyword) id).filter fun c => c.side = side).map
        (fun c => (c.rank, c.entry.score)) =
      match side with
      | .vector => occurrences vector id
      | .keyword => occurrences keyword id := by
    intro side id
    rw [toId_append, List.filter_append, filter_side_contributions, filter_side_contributions]
    cases side <;> simp [toId_contributions]
  have hlast : ∀ hit ∈ hits zero share vector keyword, ∀ side,
      hit.rankOn side = (((toId (contributions .vector 1 vector ++ contributions .keyword 1 keyword)
        hit.id).filter fun c => c.side = side).map (fun c => (c.rank, c.entry.score))).getLast?.map
          Prod.fst ∧
      hit.scoreOn side = (((toId (contributions .vector 1 vector ++ contributions .keyword 1 keyword)
        hit.id).filter fun c => c.side = side).map (fun c => (c.rank, c.entry.score))).getLast?.map
          Prod.snd := by
    intro hit hhit side
    rw [(hgathers.tells hit hhit).rankOn_eq, (hgathers.tells hit hhit).scoreOn_eq, List.getLast?_map,
      Option.map_map, Option.map_map]
    exact ⟨rfl, rfl⟩
  refine ⟨hgathers.distinct, fun id => ?_, fun hit hhit => ?_, fun hit hhit => ?_, fun hit hhit => ?_⟩
  · rw [hgathers.mem_iff, ← exists_contribution_iff .vector, ← exists_contribution_iff .keyword]
    simp only [List.mem_append, or_and_right, exists_or]
  · rw [(hgathers.tells hit hhit).score_eq, ← toId_contributions .vector, ← toId_contributions .keyword,
      ← List.map_append, ← toId_append, List.map_map]
    rfl
  · have hvector := hlast hit hhit .vector
    rwa [hside] at hvector
  · have hkeyword := hlast hit hhit .keyword
    rwa [hside] at hkeyword

end Fuses

/-! ## The order of the hits -/

section Order

variable [Add σ] [LT σ] [DecidableLT σ] (zero : σ) (share : Nat → σ) (vector keyword : List (Ranked σ))

theorem fuses_fuseWith : Fuses zero share vector keyword (fuseWith zero share vector keyword) :=
  (fuses_hits zero share vector keyword).perm (Ranked.arrange_perm _ _ _)

/-- If the scores can be compared the hits are in order, in whatever order they were collected. -/
theorem fuseWith_ordered
    (h : Ranked.Comparable ((fuseWith zero share vector keyword).map FusedHit.score)) :
    (fuseWith zero share vector keyword).Pairwise (Ranked.Precedes FusedHit.score FusedHit.id) ∧
    ∀ collected, collected.Perm (hits zero share vector keyword) →
      Ranked.arrange FusedHit.score FusedHit.id collected = fuseWith zero share vector keyword := by
  have hscores := h.perm ((Ranked.arrange_perm FusedHit.score FusedHit.id
    (hits zero share vector keyword)).symm.map FusedHit.score)
  have hdistinct := (fuses_hits zero share vector keyword).distinct
  exact ⟨hscores.pairwise_arrange hdistinct, fun _ => hscores.arrange_eq_of_perm hdistinct⟩

end Order

/-- The share of a position, exactly. -/
def exactShare (k rank : Nat) : ℚ := 1 / ((k : ℚ) + (rank : ℚ))

/-- Two rankings are fused as they should be: in doubles, each id has the sum of its shares, rounded
after each addition, and as far as the scores can be compared the hits are in the order of their scores
and ids, in whatever order they were collected; in exact numbers the scores can always be compared. -/
theorem fuse_fuses (k : Nat) :
    (∀ vector keyword : List (Ranked Float),
      Fuses 0 (share k) vector keyword (fuse k vector keyword) ∧
      (Ranked.Comparable ((fuse k vector keyword).map FusedHit.score) →
        (fuse k vector keyword).Pairwise (Ranked.Precedes FusedHit.score FusedHit.id) ∧
        ∀ collected, collected.Perm (hits 0 (share k) vector keyword) →
          Ranked.arrange FusedHit.score FusedHit.id collected = fuse k vector keyword)) ∧
    (∀ vector keyword : List (Ranked ℚ),
      Fuses 0 (exactShare k) vector keyword (fuseWith 0 (exactShare k) vector keyword) ∧
      (fuseWith 0 (exactShare k) vector keyword).Pairwise
        (fun a b => b.score < a.score ∨ (a.score = b.score ∧ a.id < b.id)) ∧
      ∀ collected, collected.Perm (hits 0 (exactShare k) vector keyword) →
        Ranked.arrange FusedHit.score FusedHit.id collected =
          fuseWith 0 (exactShare k) vector keyword) := by
  refine ⟨fun vector keyword => ⟨fuses_fuseWith _ _ _ _, fuseWith_ordered _ _ _ _⟩,
    fun vector keyword => ⟨fuses_fuseWith _ _ _ _, ?_⟩⟩
  obtain ⟨hpairwise, hcollected⟩ := fuseWith_ordered 0 (exactShare k) vector keyword
    (Ranked.comparable_of_linearOrder _)
  refine ⟨hpairwise.imp fun {a b} hab => ?_, hcollected⟩
  obtain ⟨hnot, hlt | hid⟩ := hab
  · exact .inl hlt
  · exact (lt_or_eq_of_le (not_lt.mp hnot)).imp_right fun heq => ⟨heq.symm, hid⟩

end Fusion

end SourceIndex
