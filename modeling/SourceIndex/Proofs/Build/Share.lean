import Mathlib
import SourceIndex.Build.Basic

/-! # The share of files that fail

A build gives up when the files that could not be read are more than a share of all. The share is a
number of double precision. If it is in its range, no build in which every file was read gives up,
however many files there are (`Sorting.exceeds_of_failed_eq_zero`): no rounding takes a product of
numbers that are not negative below zero.
-/

set_option autoImplicit false

namespace SourceIndex

open Float.Model

/-! ## Numbers that are not negative -/

/-- A number is not below zero: it is a zero of either sign or positive, or no number at all. -/
def IsNonneg : UnpackedFloat → Prop
  | .notANumber | .zero _ => True
  | .infinity sign | .finite sign _ _ _ => sign = .positive

theorem isNonneg_iff (a : UnpackedFloat) (sign : UnpackedFloat.Sign) :
    IsNonneg a ↔ a.lt (.zero sign) = false := by
  cases a with
  | notANumber => simp [IsNonneg, UnpackedFloat.lt, UnpackedFloat.compare]
  | zero s => simp [IsNonneg, UnpackedFloat.lt, UnpackedFloat.compare]
  | infinity s => cases s <;> simp [IsNonneg, UnpackedFloat.lt, UnpackedFloat.compare]
  | finite s m e hm => cases s <;> simp [IsNonneg, UnpackedFloat.lt, UnpackedFloat.compare]

theorem isNonneg_of_le {a : UnpackedFloat} {sign : UnpackedFloat.Sign}
    (h : (UnpackedFloat.zero sign).le a = true) : IsNonneg a := by
  cases a with
  | notANumber => trivial
  | zero s => trivial
  | infinity s => cases s <;> simp_all [IsNonneg, UnpackedFloat.le, UnpackedFloat.compare]
  | finite s m e hm => cases s <;> simp_all [IsNonneg, UnpackedFloat.le, UnpackedFloat.compare]

/-- Rounding keeps the sign. -/
theorem isNonneg_round (format : Format) (m : Nat) (e : Int)
    (accuracy : UnpackedFloat.Accuracy) :
    IsNonneg (UnpackedFloat.roundWithAccuracy format .positive m e accuracy) := by
  unfold UnpackedFloat.roundWithAccuracy
  dsimp only
  split
  · trivial
  · rfl

theorem isNonneg_mul (format : Format) {a b : UnpackedFloat} (ha : IsNonneg a) (hb : IsNonneg b) :
    IsNonneg (UnpackedFloat.mul format a b) := by
  cases a with
  | notANumber => cases b <;> trivial
  | zero s => cases b <;> trivial
  | infinity s =>
    obtain rfl : s = .positive := ha
    cases b with
    | notANumber => trivial
    | zero s' => trivial
    | infinity s' =>
      obtain rfl : s' = .positive := hb
      rfl
    | finite s' m e hm =>
      obtain rfl : s' = .positive := hb
      rfl
  | finite s m e hm =>
    obtain rfl : s = .positive := ha
    cases b with
    | notANumber => trivial
    | zero s' => trivial
    | infinity s' =>
      obtain rfl : s' = .positive := hb
      rfl
    | finite s' m' e' hm' =>
      obtain rfl : s' = .positive := hb
      exact isNonneg_round format _ _ _

/-- What is packed without a minus sign is unpacked without one. -/
theorem isNonneg_packComponents (format : Format) (e : BitVec format.exponentBits)
    (m : BitVec format.mantissaBitsWithoutImplicit) :
    IsNonneg (UnpackedFloat.unpack format (UnpackedFloat.packComponents format .positive e m)) := by
  unfold UnpackedFloat.unpack
  dsimp only
  rw [UnpackedFloat.unpackSign_packComponents, UnpackedFloat.Sign.ofBitVec_toBitVec]
  split
  · split
    · rfl
    · trivial
  · split
    · split
      · trivial
      · rfl
    · rfl

theorem isNonneg_unpack_pack {a : UnpackedFloat} (h : IsNonneg a) : IsNonneg (pack a).unpack := by
  show IsNonneg (UnpackedFloat.unpack _ (UnpackedFloat.pack _ a))
  cases a with
  | notANumber => exact isNonneg_packComponents _ _ _
  | zero s =>
    rw [isNonneg_iff _ .positive]
    cases s <;> decide +kernel
  | infinity s =>
    obtain rfl : s = .positive := h
    exact isNonneg_packComponents _ _ _
  | finite s m e hm =>
    obtain rfl : s = .positive := h
    rw [UnpackedFloat.pack]
    dsimp only
    split
    · exact isNonneg_packComponents _ _ _
    · split
      · exact isNonneg_packComponents _ _ _
      · exact isNonneg_packComponents _ _ _

theorem isNonneg_ofInt (format : Format) (n : Nat) : IsNonneg (UnpackedFloat.ofInt format n) := by
  unfold UnpackedFloat.ofInt UnpackedFloat.normalize
  split
  · rename_i hlt
    rw [compare_lt_iff_lt] at hlt
    omega
  · trivial
  · exact isNonneg_round format _ _ _

theorem isNonneg_ofScientific (format : Format) (m e : Nat) :
    IsNonneg (UnpackedFloat.ofScientific format m e) := by
  unfold UnpackedFloat.ofScientific
  split
  · trivial
  · split
    · rfl
    · split
      · trivial
      · rw [if_pos (Int.natCast_nonneg e)]
        exact isNonneg_mul format rfl rfl

theorem isNonneg_ofNat (n : Nat) : IsNonneg (Float.ofNat n).toModel.unpack := by
  have hone : IsNonneg Float.exactlyRepresentablePowersOfTen[0].toModel.unpack :=
    (isNonneg_iff _ .positive).mpr (by decide +kernel)
  show IsNonneg (Float.ofScientific n false 0).toModel.unpack
  unfold Float.ofScientific
  split
  · exact isNonneg_unpack_pack (isNonneg_mul _ (isNonneg_unpack_pack (isNonneg_ofInt _ _)) hone)
  · exact isNonneg_unpack_pack (isNonneg_ofScientific _ n 0)

/-- A share that is not negative, of any number of files, is not below none of them. -/
theorem not_share_lt_zero {share : Float} (h : 0.0 ≤ share) (n : Nat) :
    ¬ share * Float.ofNat n < Float.ofNat 0 := by
  have hzero : (Float.ofNat 0).toModel.unpack = .zero .positive := by rfl
  have hshare : IsNonneg share.toModel.unpack := by
    have hle : (0.0 : Float).toModel.unpack.le share.toModel.unpack = true := of_decide_eq_true h
    have hstart : (0.0 : Float).toModel.unpack = .zero .positive := by rfl
    rw [hstart] at hle
    exact isNonneg_of_le hle
  have hproduct : IsNonneg (share * Float.ofNat n).toModel.unpack :=
    isNonneg_unpack_pack (isNonneg_mul _ hshare (isNonneg_ofNat n))
  intro hlt
  have hbelow : (share * Float.ofNat n).toModel.unpack.lt (Float.ofNat 0).toModel.unpack = true :=
    of_decide_eq_true hlt
  rw [hzero, (isNonneg_iff _ _).mp hproduct] at hbelow
  cases hbelow

namespace Sorting

/-- If every file was read, a build does not give up. -/
theorem exceeds_of_failed_eq_zero {s : Sorting} (hfailed : s.failed = 0) {share : Float}
    (hshare : 0.0 ≤ share) (attempted : Nat) : s.exceeds attempted share = false := by
  rw [exceeds, hfailed, decide_eq_false (not_share_lt_zero hshare attempted), Bool.and_false]

end Sorting

end SourceIndex
