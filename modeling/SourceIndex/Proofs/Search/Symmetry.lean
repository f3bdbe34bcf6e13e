import Mathlib
import SourceIndex.Proofs.Search.Shares

/-! # Two rankings on an equal footing

Fusion does not prefer one of its rankings. In numbers whose sums do not depend on the order of the
terms the hits are determined by the two rankings together (`Fusion.Fuses.perm_of_fuses`), so fusing them
the other way round gives the same hits, with what they know about the two rankings changed about
(`Fusion.fuseWith_swap`). Doubles are rounded after each addition and need not obey this.

Nor does fusion go against both rankings at once. An id that does at least as well as another in either
ranking, and better in one of them (`Fusion.Outranks`), has a higher exact score, and so it comes first.
-/

set_option autoImplicit false

namespace SourceIndex

variable {σ : Type}

namespace FusedHit

/-- A hit with what it knows about the two rankings changed about. -/
def swap (hit : FusedHit σ) : FusedHit σ where
  id := hit.id
  score := hit.score
  vectorRank := hit.keywordRank
  keywordRank := hit.vectorRank
  vectorScore := hit.keywordScore
  keywordScore := hit.vectorScore

theorem map_id_swap (hits : List (FusedHit σ)) :
    (hits.map swap).map FusedHit.id = hits.map FusedHit.id := by
  rw [List.map_map]
  rfl

end FusedHit

/-! ## Positions -/

theorem position_pos {ids : List String} {id : String} {i : Nat} (h : position ids id = some i) :
    0 < i := by
  obtain ⟨j, -, rfl⟩ := Option.map_eq_some_iff.mp h
  exact Nat.succ_pos j

namespace Fusion

/-! ## The other way round -/

section Swap

variable [AddCommMonoid σ] {zero : σ} {share : Nat → σ} {vector keyword : List (Ranked σ)}
  {fused fused' : List (FusedHit σ)}

theorem Fuses.swap (h : Fuses zero share vector keyword fused) :
    Fuses zero share keyword vector (fused.map FusedHit.swap) where
  distinct := by
    rw [FusedHit.map_id_swap]
    exact h.distinct
  mem_iff id := by
    rw [FusedHit.map_id_swap, h.mem_iff]
    exact Or.comm
  score_eq hit hhit := by
    obtain ⟨old, hold, rfl⟩ := List.mem_map.mp hhit
    show old.score = _
    rw [h.score_eq old hold]
    -- the same shares are added up in another order
    exact (List.perm_append_comm.map _).foldl_eq _
  vector_eq hit hhit := by
    obtain ⟨old, hold, rfl⟩ := List.mem_map.mp hhit
    exact h.keyword_eq old hold
  keyword_eq hit hhit := by
    obtain ⟨old, hold, rfl⟩ := List.mem_map.mp hhit
    exact h.vector_eq old hold

omit [AddCommMonoid σ] in
/-- Two rankings have the same hits wherever they are fused, apart from the order. -/
theorem Fuses.perm_of_fuses [Add σ] (h : Fuses zero share vector keyword fused)
    (h' : Fuses zero share vector keyword fused') : fused.Perm fused' := by
  have hsub : ∀ {xs ys : List (FusedHit σ)}, Fuses zero share vector keyword xs →
      Fuses zero share vector keyword ys → ∀ hit ∈ xs, hit ∈ ys := by
    intro xs ys hxs hys hit hhit
    have hid : hit.id ∈ ys.map FusedHit.id :=
      (hys.mem_iff _).mpr ((hxs.mem_iff _).mp (List.mem_map_of_mem hhit))
    obtain ⟨other, hother, heq⟩ := List.mem_map.mp hid
    -- all that a hit says follows from its id
    have hsame : hit = other := by
      obtain ⟨hvr, hvs⟩ := hxs.vector_eq hit hhit
      obtain ⟨hkr, hks⟩ := hxs.keyword_eq hit hhit
      obtain ⟨hvr', hvs'⟩ := hys.vector_eq other hother
      obtain ⟨hkr', hks'⟩ := hys.keyword_eq other hother
      have hscore := hxs.score_eq hit hhit
      have hscore' := hys.score_eq other hother
      rw [heq] at hvr' hvs' hkr' hks' hscore'
      cases hit
      cases other
      simp_all
    exact hsame ▸ hother
  refine (List.perm_ext_iff_of_nodup h.distinct.of_map h'.distinct.of_map).mpr fun hit => ?_
  exact ⟨hsub h h' hit, hsub h' h hit⟩

omit [AddCommMonoid σ] in
/-- The order of hits does not depend on the sides. -/
theorem arrange_swap [LT σ] [DecidableLT σ] (hits : List (FusedHit σ)) :
    Ranked.arrange FusedHit.score FusedHit.id (hits.map FusedHit.swap) =
      (Ranked.arrange FusedHit.score FusedHit.id hits).map FusedHit.swap := by
  unfold Ranked.arrange
  rw [List.map_mergeSort]
  intro a _ b _
  rfl

/-- Which of two rankings comes first does not matter. -/
theorem fuseWith_swap [LinearOrder σ] (zero : σ) (share : Nat → σ)
    (vector keyword : List (Ranked σ)) :
    fuseWith zero share keyword vector = (fuseWith zero share vector keyword).map FusedHit.swap := by
  have harranged : ∀ (vector keyword : List (Ranked σ)) (collected : List (FusedHit σ)),
      collected.Perm (hits zero share vector keyword) →
        Ranked.arrange FusedHit.score FusedHit.id collected = fuseWith zero share vector keyword :=
    fun vector keyword => (fuseWith_ordered zero share vector keyword
      (Ranked.comparable_of_linearOrder _)).2
  have hsame : (fuseWith zero share vector keyword).Perm (hits zero share vector keyword) :=
    Ranked.arrange_perm _ _ _
  have hswap : ((fuseWith zero share vector keyword).map FusedHit.swap).Perm
      (hits zero share keyword vector) :=
    (fuses_fuseWith zero share vector keyword).swap.perm_of_fuses (fuses_hits zero share keyword vector)
  calc fuseWith zero share keyword vector
      = Ranked.arrange FusedHit.score FusedHit.id
          ((fuseWith zero share vector keyword).map FusedHit.swap) :=
        (harranged keyword vector _ hswap).symm
    _ = (Ranked.arrange FusedHit.score FusedHit.id
          (fuseWith zero share vector keyword)).map FusedHit.swap :=
        arrange_swap _
    _ = (fuseWith zero share vector keyword).map FusedHit.swap := by
        rw [harranged vector keyword _ hsame]

end Swap

/-! ## What a position is worth -/

/-- What an id gains in a ranking that has it at a position, or does not have it. -/
def gain (k : Nat) (rank : Option Nat) : ℚ := rank.elim 0 (exactShare k)

theorem exactShare_pos (k : Nat) {rank : Nat} (h : 0 < rank) : 0 < exactShare k rank := by
  have hrank : (0 : ℚ) < rank := Nat.cast_pos.mpr h
  unfold exactShare
  positivity

/-- A later position is worth less. -/
theorem exactShare_lt (k : Nat) {i j : Nat} (hi : 0 < i) (h : i < j) :
    exactShare k j < exactShare k i := by
  have hpos : (0 : ℚ) < i := Nat.cast_pos.mpr hi
  have hlt : (i : ℚ) < j := Nat.cast_lt.mpr h
  unfold exactShare
  apply one_div_lt_one_div_of_lt
  · positivity
  · linarith

theorem exactShare_le (k : Nat) {i j : Nat} (hi : 0 < i) (h : i ≤ j) :
    exactShare k j ≤ exactShare k i := by
  rcases Nat.lt_or_eq_of_le h with hlt | rfl
  · exact (exactShare_lt k hi hlt).le
  · exact le_rfl

/-- The positions of an id in a ranking that does not repeat it. -/
theorem ranks_zipIdx {entries : List (Ranked σ)} (h : (entries.map Ranked.id).Nodup) (id : String)
    (start : Nat) :
    ((entries.zipIdx start).filter fun e => e.1.id = id).map Prod.snd =
      (((entries.map Ranked.id).idxOf? id).map (· + start)).toList := by
  induction entries generalizing start with
  | nil => rfl
  | cons entry rest ih =>
      obtain ⟨hnot, hrest⟩ := List.nodup_cons.mp h
      rw [List.zipIdx_cons, List.map_cons, List.idxOf?_cons]
      by_cases hid : entry.id = id
      · -- the id does not come again
        have hnone : (rest.map Ranked.id).idxOf? id = none :=
          List.idxOf?_eq_none_iff.mpr (hid ▸ hnot)
        have hnil := ih hrest (start + 1)
        rw [hnone, Option.map_none, Option.toList_none, List.map_eq_nil_iff] at hnil
        simp [hid, hnil]
      · have hmore := ih hrest (start + 1)
        rw [List.filter_cons_of_neg (by simpa using hid), hmore]
        simp [hid, Option.map_map, Function.comp_def, Nat.add_assoc, Nat.add_comm 1]

theorem ranks_occurrences {entries : List (Ranked σ)} (h : (entries.map Ranked.id).Nodup)
    (id : String) :
    (occurrences entries id).map Prod.fst = (position (entries.map Ranked.id) id).toList := by
  rw [occurrences, List.map_map]
  exact ranks_zipIdx h id 1

section Exact

variable {k : Nat} {vector keyword : List (Ranked ℚ)}

/-- The exact score of a hit is what its id gains in the two rankings. -/
theorem score_eq_gain (hvector : (vector.map Ranked.id).Nodup)
    (hkeyword : (keyword.map Ranked.id).Nodup) {hit : FusedHit ℚ}
    (hhit : hit ∈ fuseWith 0 (exactShare k) vector keyword) :
    hit.score = gain k (position (vector.map Ranked.id) hit.id) +
      gain k (position (keyword.map Ranked.id) hit.id) := by
  have hranks : (occurrences vector hit.id ++ occurrences keyword hit.id).map
        (fun o => exactShare k o.1) =
      ((position (vector.map Ranked.id) hit.id).toList ++
        (position (keyword.map Ranked.id) hit.id).toList).map (exactShare k) := by
    rw [← ranks_occurrences hvector, ← ranks_occurrences hkeyword, ← List.map_append, List.map_map]
    rfl
  rw [(fuses_fuseWith 0 (exactShare k) vector keyword).score_eq hit hhit, hranks]
  cases position (vector.map Ranked.id) hit.id <;>
    cases position (keyword.map Ranked.id) hit.id <;> simp [gain]

/-- There is a hit for every id that is ranked on one side. -/
theorem mem_fuseWith_iff {id : String} :
    id ∈ (fuseWith 0 (exactShare k) vector keyword).map FusedHit.id ↔
      ∃ side, id ∈ sides vector keyword side := by
  rw [(fuses_fuseWith 0 (exactShare k) vector keyword).mem_iff]
  constructor
  · rintro (hmem | hmem)
    · exact ⟨.vector, hmem⟩
    · exact ⟨.keyword, hmem⟩
  · rintro ⟨side, hmem⟩
    cases side with
    | vector => exact .inl hmem
    | keyword => exact .inr hmem

/-- An id does at least as well as another in two rankings, and better in one of them: there it comes
earlier, or the other one is missing. -/
structure Outranks (ids : RankingSide → List String) (a b : String) : Prop where
  nowhere_worse : ∀ side j, position (ids side) b = some j →
    ∃ i, position (ids side) a = some i ∧ i ≤ j
  somewhere_better : ∃ side i, position (ids side) a = some i ∧
    ∀ j, position (ids side) b = some j → i < j

variable {ids : RankingSide → List String} {a b : String}

theorem Outranks.gain_le (h : Outranks ids a b) (k : Nat) (side : RankingSide) :
    gain k (position (ids side) b) ≤ gain k (position (ids side) a) := by
  cases hb : position (ids side) b with
  | none =>
      cases ha : position (ids side) a with
      | none => exact le_rfl
      | some i => exact (exactShare_pos k (position_pos ha)).le
  | some j =>
      obtain ⟨i, ha, hle⟩ := h.nowhere_worse side j hb
      rw [ha]
      exact exactShare_le k (position_pos ha) hle

theorem Outranks.gain_lt (h : Outranks ids a b) (k : Nat) :
    ∃ side, gain k (position (ids side) b) < gain k (position (ids side) a) := by
  obtain ⟨side, i, ha, hbetter⟩ := h.somewhere_better
  refine ⟨side, ?_⟩
  rw [ha]
  cases hb : position (ids side) b with
  | none => exact exactShare_pos k (position_pos ha)
  | some j => exact exactShare_lt k (position_pos ha) (hbetter j hb)

theorem Outranks.gains_lt (h : Outranks ids a b) (k : Nat) :
    gain k (position (ids .vector) b) + gain k (position (ids .keyword) b) <
      gain k (position (ids .vector) a) + gain k (position (ids .keyword) a) := by
  obtain ⟨side, hlt⟩ := h.gain_lt k
  cases side with
  | vector => exact add_lt_add_of_lt_of_le hlt (h.gain_le k .keyword)
  | keyword => exact add_lt_add_of_le_of_lt (h.gain_le k .vector) hlt

/-- The better of two ids is ranked. -/
theorem Outranks.exists_mem (h : Outranks ids a b) : ∃ side, a ∈ ids side := by
  obtain ⟨side, i, ha, -⟩ := h.somewhere_better
  exact ⟨side, (position_isSome_iff _ _).mp (Option.isSome_iff_exists.mpr ⟨i, ha⟩)⟩

/-- Of two hits the one with the higher score comes first. -/
theorem position_lt_of_score_lt {fused : List (FusedHit ℚ)} (hdistinct : (fused.map FusedHit.id).Nodup)
    (hordered : fused.Pairwise (Ranked.Precedes FusedHit.score FusedHit.id)) {x y : FusedHit ℚ}
    (hx : x ∈ fused) (hy : y ∈ fused) (hlt : y.score < x.score) :
    ∃ i j, position (fused.map FusedHit.id) x.id = some i ∧
      position (fused.map FusedHit.id) y.id = some j ∧ i < j := by
  obtain ⟨m, hm, rfl⟩ := List.mem_iff_getElem.mp hx
  obtain ⟨n, hn, rfl⟩ := List.mem_iff_getElem.mp hy
  have hplace : ∀ l (hl : l < fused.length),
      position (fused.map FusedHit.id) fused[l].id = some (l + 1) := by
    intro l hl
    have hget := position_getElem hdistinct (i := l) (by simpa using hl)
    rwa [List.getElem_map] at hget
  refine ⟨m + 1, n + 1, hplace m hm, hplace n hn, Nat.succ_lt_succ ?_⟩
  by_contra hle
  rcases Nat.lt_or_eq_of_le (not_lt.mp hle) with hnm | rfl
  · exact (List.pairwise_iff_getElem.mp hordered n m hn hm hnm).1 hlt
  · exact lt_irrefl _ hlt

end Exact

/-- In exact numbers fusion is fair to its two rankings. Fused the other way round they give the same
ids in the same order with the same scores, what is known about either ranking changed about. Rankings
that repeat no id are never contradicted together: every id of either has a hit, and an id that outranks
another comes before it. -/
theorem exact_fusion_fair {vector keyword : List (Ranked ℚ)} (hvector : (vector.map Ranked.id).Nodup)
    (hkeyword : (keyword.map Ranked.id).Nodup) (k : Nat) :
    fuseWith 0 (exactShare k) keyword vector =
      (fuseWith 0 (exactShare k) vector keyword).map FusedHit.swap ∧
    ∀ a b, Outranks (sides vector keyword) a b → (∃ side, b ∈ sides vector keyword side) →
      ∃ i j, position ((fuseWith 0 (exactShare k) vector keyword).map FusedHit.id) a = some i ∧
        position ((fuseWith 0 (exactShare k) vector keyword).map FusedHit.id) b = some j ∧ i < j := by
  refine ⟨fuseWith_swap 0 (exactShare k) vector keyword, fun a b hab hb => ?_⟩
  obtain ⟨x, hx, rfl⟩ := List.mem_map.mp (mem_fuseWith_iff (k := k) |>.mpr hab.exists_mem)
  obtain ⟨y, hy, rfl⟩ := List.mem_map.mp (mem_fuseWith_iff (k := k) |>.mpr hb)
  have hdistinct := (fuses_fuseWith 0 (exactShare k) vector keyword).distinct
  have hordered := (fuseWith_ordered 0 (exactShare k) vector keyword
    (Ranked.comparable_of_linearOrder _)).1
  apply position_lt_of_score_lt hdistinct hordered hx hy
  rw [score_eq_gain hvector hkeyword hx, score_eq_gain hvector hkeyword hy]
  exact hab.gains_lt k

/-- A ranking by vectors with two ids. -/
def smallVector : List (Ranked ℚ) := [⟨"a", 3⟩, ⟨"b", 2⟩]

/-- A ranking by words that has one of them. -/
def smallKeyword : List (Ranked ℚ) := [⟨"c", 5⟩, ⟨"a", 4⟩]

theorem outranks_small : Outranks (sides smallVector smallKeyword) "a" "b" where
  nowhere_worse side j hb := by
    cases side with
    | vector =>
        obtain rfl : 2 = j := Option.some.inj hb
        exact ⟨1, rfl, by decide⟩
    | keyword => cases hb
  somewhere_better := ⟨.keyword, 2, rfl, nofun⟩

/-- The id that both rankings have comes before the one that stands behind it in the first and is
missing in the second. -/
theorem exact_fusion_fair_small :
    (smallVector.map Ranked.id).Nodup ∧ (smallKeyword.map Ranked.id).Nodup ∧
      Outranks (sides smallVector smallKeyword) "a" "b" ∧
      ∃ i j,
        position ((fuseWith 0 (exactShare 60) smallVector smallKeyword).map FusedHit.id) "a" = some i ∧
        position ((fuseWith 0 (exactShare 60) smallVector smallKeyword).map FusedHit.id) "b" = some j ∧
        i < j := by
  have hvector : (smallVector.map Ranked.id).Nodup := by decide
  have hkeyword : (smallKeyword.map Ranked.id).Nodup := by decide
  refine ⟨hvector, hkeyword, outranks_small, ?_⟩
  exact (exact_fusion_fair hvector hkeyword 60).2 "a" "b" outranks_small ⟨.vector, by decide⟩

end Fusion

end SourceIndex
