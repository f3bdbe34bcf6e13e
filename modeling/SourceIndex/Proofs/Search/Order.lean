import Mathlib
import SourceIndex.Search.Fusion

/-! # The order of a ranking

Higher scores come first, and equal scores are in the order of their ids. That orders things with
different ids in one way only, as long as the order of their scores is total up to ties
(`Ranked.Comparable`): what comes first precedes all that follows (`Ranked.Comparable.pairwise_arrange`),
and the order in which the things were found does not matter
(`Ranked.Comparable.arrange_eq_of_perm`). Some of the things come in the order they have among all
(`Ranked.Comparable.filter_arrange`).

Nothing is asked of scores that do not occur, so it is enough that those at hand can be compared.
-/

set_option autoImplicit false

namespace SourceIndex

namespace Ranked

variable {σ α : Type} [LT σ]

/-- Scores whose order is total up to ties: no two come before one another, and of two that differ any
third one differs from one of them, in the same direction. -/
structure Comparable (scores : List σ) : Prop where
  asymm : ∀ x ∈ scores, ∀ y ∈ scores, x < y → ¬ y < x
  between : ∀ x ∈ scores, ∀ y ∈ scores, ∀ z ∈ scores, x < z → x < y ∨ y < z

/-- All scores can be compared in a linear order. -/
theorem comparable_of_linearOrder {σ : Type} [LinearOrder σ] (scores : List σ) : Comparable scores where
  asymm _ _ _ _ h := h.asymm
  between x _ y _ z _ h := by
    by_cases hxy : x < y
    · exact .inl hxy
    · exact .inr ((not_lt.mp hxy).trans_lt h)

theorem Comparable.perm {scores scores' : List σ} (h : Comparable scores) (hperm : scores'.Perm scores) :
    Comparable scores' where
  asymm x hx y hy := h.asymm x (hperm.mem_iff.mp hx) y (hperm.mem_iff.mp hy)
  between x hx y hy z hz :=
    h.between x (hperm.mem_iff.mp hx) y (hperm.mem_iff.mp hy) z (hperm.mem_iff.mp hz)

theorem Comparable.of_subset {scores scores' : List σ} (h : Comparable scores) (hsub : scores' ⊆ scores) :
    Comparable scores' where
  asymm x hx y hy := h.asymm x (hsub hx) y (hsub hy)
  between x hx y hy z hz := h.between x (hsub hx) y (hsub hy) z (hsub hz)

variable [DecidableLT σ] {scores : List σ} {x y z : σ} {i j k : String}

theorem before_iff : before x i y j = true ↔ y < x ∨ (¬ x < y ∧ i ≤ j) := by
  rw [before]
  by_cases hyx : y < x
  · simp [hyx]
  · by_cases hxy : x < y <;> simp [hyx, hxy]

theorem before_total (x : σ) (i : String) (y : σ) (j : String) :
    (before x i y j || before y j x i) = true := by
  rw [Bool.or_eq_true, before_iff, before_iff]
  by_cases hyx : y < x
  · exact .inl (.inl hyx)
  · by_cases hxy : x < y
    · exact .inr (.inl hxy)
    · exact (le_total i j).imp (fun h => .inr ⟨hxy, h⟩) fun h => .inr ⟨hyx, h⟩

theorem Comparable.before_trans (h : Comparable scores) (hx : x ∈ scores) (hy : y ∈ scores)
    (hz : z ∈ scores) (hxy : before x i y j = true) (hyz : before y j z k = true) :
    before x i z k = true := by
  rw [before_iff] at hxy hyz ⊢
  rcases hxy with hyx | ⟨hxy, hij⟩
  · -- the middle score is lower than the first, so the last is too
    rcases h.between y hy z hz x hx hyx with hyz' | hzx
    · rcases hyz with hzy | ⟨hyz, -⟩
      · exact absurd hzy (h.asymm y hy z hz hyz')
      · exact absurd hyz' hyz
    · exact .inl hzx
  · rcases hyz with hzy | ⟨hyz, hjk⟩
    · rcases h.between z hz x hx y hy hzy with hzx | hxy'
      · exact .inl hzx
      · exact absurd hxy' hxy
    · refine .inr ⟨fun hxz => ?_, hij.trans hjk⟩
      exact (h.between x hx y hy z hz hxz).elim hxy hyz

/-! ## Things with scores and ids -/

variable (score : α → σ) (id : α → String)

/-- Things with higher scores first, ids in order among equal scores. -/
def arrange (things : List α) : List α :=
  things.mergeSort fun a b => before (score a) (id a) (score b) (id b)

/-- One thing comes before another for its score, or for its id if the scores are equal. -/
def Precedes (a b : α) : Prop := ¬ score a < score b ∧ (score b < score a ∨ id a < id b)

variable {things things' : List α}

theorem arrange_perm (things : List α) : (arrange score id things).Perm things :=
  List.mergeSort_perm _ _

variable {score id}

/-- The order is decided on the things at hand, whatever other scores there may be. -/
theorem Comparable.pairwise_before (h : Comparable (things.map score)) :
    (arrange score id things).Pairwise fun a b => before (score a) (id a) (score b) (id b) = true := by
  let le (a b : {a // a ∈ things}) : Bool := before (score a) (id a) (score b) (id b)
  have hmem : ∀ a : {a // a ∈ things}, score a ∈ things.map score :=
    fun a => List.mem_map_of_mem a.2
  have htrans : ∀ a b c, le a b = true → le b c = true → le a c = true :=
    fun a b c => h.before_trans (hmem a) (hmem b) (hmem c)
  have htotal : ∀ a b, (le a b || le b a) = true := fun a b => before_total _ _ _ _
  have hmap : (things.attach.mergeSort le).map Subtype.val = arrange score id things := by
    have hval := List.map_mergeSort (r := le)
      (s := fun a b : α => before (score a) (id a) (score b) (id b)) (f := Subtype.val)
      (l := things.attach) fun _ _ _ _ => rfl
    rwa [List.attach_map_subtype_val] at hval
  rw [← hmap, List.pairwise_map]
  exact List.pairwise_mergeSort htrans htotal _

/-- Each thing precedes all that follow it. -/
theorem Comparable.pairwise_arrange (h : Comparable (things.map score)) (hids : (things.map id).Nodup) :
    (arrange score id things).Pairwise (Precedes score id) := by
  have hperm := arrange_perm score id things
  have hne : (arrange score id things).Pairwise fun a b => id a ≠ id b :=
    List.pairwise_map.mp ((hperm.map id).nodup_iff.mpr hids)
  refine (h.pairwise_before.and hne).imp_of_mem fun {a b} ha hb hab => ?_
  obtain ⟨hbefore, hne⟩ := hab
  have ha := List.mem_map_of_mem (f := score) (hperm.mem_iff.mp ha)
  have hb := List.mem_map_of_mem (f := score) (hperm.mem_iff.mp hb)
  rcases before_iff.mp hbefore with hlt | ⟨hnot, hle⟩
  · exact ⟨h.asymm _ hb _ ha hlt, .inl hlt⟩
  · exact ⟨hnot, .inr (lt_of_le_of_ne hle hne)⟩

/-- Things are arranged in one way only. -/
theorem Comparable.arrange_eq_of_perm (h : Comparable (things.map score)) (hids : (things.map id).Nodup)
    (hperm : things'.Perm things) : arrange score id things' = arrange score id things := by
  have hall := (arrange_perm score id things').trans hperm
  refine List.Perm.eq_of_pairwise (fun a b ha hb hab hba => ?_)
    (h.perm (hperm.map score)).pairwise_before h.pairwise_before
    (hall.trans (arrange_perm score id things).symm)
  have ha := hall.mem_iff.mp ha
  have hb := (arrange_perm score id things).mem_iff.mp hb
  refine List.inj_on_of_nodup_map hids ha hb ?_
  have ha := List.mem_map_of_mem (f := score) ha
  have hb := List.mem_map_of_mem (f := score) hb
  rcases before_iff.mp hab with hlt | ⟨hnot, hle⟩
  · rcases before_iff.mp hba with hlt' | ⟨hnot', -⟩
    · exact absurd hlt' (h.asymm _ hb _ ha hlt)
    · exact absurd hlt hnot'
  · rcases before_iff.mp hba with hlt' | ⟨-, hle'⟩
    · exact absurd hlt' hnot
    · exact le_antisymm hle hle'

/-- Arranging comes to the same before and after some of the things are left out. -/
theorem Comparable.filter_arrange (h : Comparable (things.map score)) (hids : (things.map id).Nodup)
    (keep : α → Bool) :
    (arrange score id things).filter keep = arrange score id (things.filter keep) := by
  have hsub : (things.filter keep).Sublist things := List.filter_sublist
  have hkept : Comparable ((things.filter keep).map score) := h.of_subset (hsub.map score).subset
  calc (arrange score id things).filter keep
      = arrange score id ((arrange score id things).filter keep) :=
        -- what is left is still in order
        (List.mergeSort_of_pairwise (h.pairwise_before.filter keep)).symm
    _ = arrange score id (things.filter keep) :=
        hkept.arrange_eq_of_perm (hids.sublist (hsub.map id)) ((arrange_perm score id things).filter keep)

end Ranked

end SourceIndex
