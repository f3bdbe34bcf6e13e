import Mathlib
import SourceIndex.Proofs.Search.Order

/-! # Scores that are numbers

Doubles are not in a linear order: what is no number is neither below nor above anything. All other
doubles are, up to the two zeros, so a ranking by doubles is in order as soon as each of its scores is a
number (`Ranked.comparable_of_numbers`).

To see it a number is placed on a line by its sign, exponent and mantissa (`place`), as its bits are
compared.
-/

set_option autoImplicit false

namespace SourceIndex

open Float.Model

/-! ## The place of a number -/

/-- Where a number stands among all others: its sign, with infinity further out than any finite number,
then exponent and mantissa, both turned about below zero. What is no number is put at zero. -/
def place : UnpackedFloat → ℤ ×ₗ ℤ ×ₗ ℤ
  | .infinity .positive => toLex (2, toLex (0, 0))
  | .infinity .negative => toLex (-2, toLex (0, 0))
  | .notANumber | .zero _ => toLex (0, toLex (0, 0))
  | .finite .positive m e _ => toLex (1, toLex (e, m))
  | .finite .negative m e _ => toLex (-1, toLex (-e, -m))

theorem then_compare_eq_lt (e e' : ℤ) (m m' : ℕ) :
    (compare e e').then (compare m m') = .lt ↔ e < e' ∨ (e = e' ∧ m < m') := by
  rw [Ordering.then_eq_lt, compare_lt_iff_lt, compare_eq_iff_eq, compare_lt_iff_lt]

theorem then_compare_eq_gt (e e' : ℤ) (m m' : ℕ) :
    (compare e e').then (compare m m') = .gt ↔ e' < e ∨ (e = e' ∧ m' < m) := by
  rw [Ordering.then_eq_gt, compare_gt_iff_gt, compare_eq_iff_eq, compare_gt_iff_gt]

/-- Numbers are compared by their places. -/
theorem lt_iff_place_lt {a b : UnpackedFloat} (ha : a.isNaN = false) (hb : b.isNaN = false) :
    a.lt b = true ↔ place a < place b := by
  unfold UnpackedFloat.lt
  cases a with
  | notANumber => cases ha
  | infinity s =>
      cases b with
      | notANumber => cases hb
      | infinity s' => cases s <;> cases s' <;> decide
      | zero s' => cases s <;> simp [UnpackedFloat.compare, place, Prod.Lex.lt_iff]
      | finite s' m e hm =>
          cases s <;> cases s' <;> simp [UnpackedFloat.compare, place, Prod.Lex.lt_iff]
  | zero s =>
      cases b with
      | notANumber => cases hb
      | infinity s' => cases s' <;> simp [UnpackedFloat.compare, place, Prod.Lex.lt_iff]
      | zero s' => simp [UnpackedFloat.compare, place]
      | finite s' m e hm => cases s' <;> simp [UnpackedFloat.compare, place, Prod.Lex.lt_iff]
  | finite s m e hm =>
      cases b with
      | notANumber => cases hb
      | infinity s' =>
          cases s <;> cases s' <;> simp [UnpackedFloat.compare, place, Prod.Lex.lt_iff]
      | zero s' => cases s <;> simp [UnpackedFloat.compare, place, Prod.Lex.lt_iff]
      | finite s' m' e' hm' =>
          -- only here do exponent and mantissa decide
          cases s <;> cases s' <;>
            simp [UnpackedFloat.compare, place, Prod.Lex.lt_iff, then_compare_eq_lt, then_compare_eq_gt]

/-- Doubles that are numbers are compared by their places. -/
theorem double_lt_iff {x y : Float} (hx : x.isNaN = false) (hy : y.isNaN = false) :
    x < y ↔ place x.toModel.unpack < place y.toModel.unpack :=
  decide_eq_true_iff.trans (lt_iff_place_lt hx hy)

theorem double_lt_irrefl (x : Float) : ¬ x < x := by
  intro hlt
  cases hx : x.isNaN with
  | false => exact lt_irrefl _ ((double_lt_iff hx hx).mp hlt)
  | true =>
      -- what is no number is not below itself either
      have hnone : x.toModel.unpack.lt x.toModel.unpack = true := of_decide_eq_true hlt
      have hnan : x.toModel.unpack.isNaN = true := hx
      cases hunpacked : x.toModel.unpack <;> simp_all [UnpackedFloat.isNaN, UnpackedFloat.lt,
        UnpackedFloat.compare]

namespace Ranked

/-- Scores that are numbers can be compared. -/
theorem comparable_of_numbers {scores : List Float} (h : ∀ x ∈ scores, x.isNaN = false) :
    Comparable scores := by
  have hplaces := comparable_of_linearOrder (scores.map fun x => place x.toModel.unpack)
  have hmem : ∀ x ∈ scores, place x.toModel.unpack ∈ scores.map fun x => place x.toModel.unpack :=
    fun x hx => List.mem_map_of_mem hx
  have hlt : ∀ x ∈ scores, ∀ y ∈ scores,
      (x < y ↔ place x.toModel.unpack < place y.toModel.unpack) :=
    fun x hx y hy => double_lt_iff (h x hx) (h y hy)
  constructor
  · intro x hx y hy
    rw [hlt x hx y hy, hlt y hy x hx]
    exact hplaces.asymm _ (hmem x hx) _ (hmem y hy)
  · intro x hx y hy z hz
    rw [hlt x hx z hz, hlt x hx y hy, hlt y hy z hz]
    exact hplaces.between _ (hmem x hx) _ (hmem y hy) _ (hmem z hz)

/-- A single score can be compared with itself, number or not. -/
theorem comparable_of_eq {scores : List Float} (score : Float) (h : ∀ x ∈ scores, x = score) :
    Comparable scores := by
  have hirrefl : ¬ score < score := double_lt_irrefl score
  constructor
  · intro x hx y hy hlt
    rw [h x hx, h y hy] at hlt
    exact absurd hlt hirrefl
  · intro x hx y hy z hz hlt
    rw [h x hx, h z hz] at hlt
    exact absurd hlt hirrefl

end Ranked

end SourceIndex
