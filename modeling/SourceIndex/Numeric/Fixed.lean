import SourceIndex.Numeric.Binary

set_option autoImplicit false

/-! # Decimals with a fixed number of places

The exact value of a double, rounded to a given number of places, a half to the even
neighbour.
-/

namespace SourceIndex

namespace Numeric

/-- The quotient rounded to the nearest number, a half to the even one. -/
def roundDiv (num den : Nat) : Nat :=
  let d := num / den
  let twice := 2 * (num % den)
  if twice < den || (twice == den && d % 2 == 0) then d else d + 1

/-- The text of `n / 10 ^ places` with all its places. -/
def placesText (places n : Nat) : String :=
  if places = 0 then toString n
  else
    let digits := (toString n).toList
    let digits := List.replicate (places + 1 - digits.length) '0' ++ digits
    let whole := digits.length - places
    String.ofList (digits.take whole ++ '.' :: digits.drop whole)

/-- A double with `places` places. -/
def fixedText (places : Nat) (x : Float) : String :=
  match Binary.ofFloat x with
  | .finite negative m q _ =>
    let (num, den) := fraction m q
    (if negative then "-" else "") ++ placesText places (roundDiv (num * Nat.pow 10 places) den)
  | .infinite negative => if negative then "-inf" else "inf"
  | .nan => "NaN"

end Numeric

end SourceIndex
