import SourceIndex.Numeric.Binary

set_option autoImplicit false

/-! # The shortest decimal that reads back

The doubles cut the line into intervals: a real in the interval of a double reads back as that
double. An end of the interval belongs to it when the significand is even. Of all decimals in
the interval of `x` the shortest are those with the fewest digits, and of these the nearest to
`x` is written, the even one of two that are equally near.

* `shortest`: digits and exponent of that decimal.
* `RealFormat`, `realText`: how digits and exponent are laid out.
-/

namespace SourceIndex

namespace Numeric

/-- How many decimal digits a number has; zero has none. -/
def digitCount (n : Nat) : Nat := if n = 0 then 0 else (toString n).length

/-- The exponent `e` with `10 ^ e ≤ num / den < 10 ^ (e + 1)`, for positive `num`, `den`. -/
def decimalExponent (num den : Nat) : Int :=
  if den ≤ num then (digitCount (num / den) : Int) - 1
  else -(digitCount ((den - 1) / num) : Int)

/-- Whether the decimal `d * 10 ^ k` lies in the interval that reads back as the double with
the value `m * 2 ^ q`. -/
def readsBack (m : Nat) (q : Int) (edge : Bool) (d : Nat) (k : Int) : Bool :=
  let (unit, den) := fraction 1 (q - 2)
  let (ten, tenDen) := if k < 0 then (1, Nat.pow 10 (-k).toNat) else (Nat.pow 10 k.toNat, 1)
  let value := d * ten * den
  let low := (4 * m - if edge then 1 else 2) * unit * tenDen
  let high := (4 * m + 2) * unit * tenDen
  if m % 2 = 0 then low ≤ value && value ≤ high else low < value && value < high

/-- The first grid with `count` or more digits that has a decimal in the interval, and the
nearest such decimal. -/
def shortestFrom (m : Nat) (q : Int) (edge : Bool) (top : Int) : (fuel count : Nat) → Nat × Int
  | 0, count => (0, top - count)
  | fuel + 1, count =>
    let k := top + 1 - count
    let (num, den) := fraction m q
    let (num, den) :=
      if k < 0 then (num * Nat.pow 10 (-k).toNat, den) else (num, den * Nat.pow 10 k.toNat)
    let d := num / den
    let twice := 2 * (num % den)
    match readsBack m q edge d k, readsBack m q edge (d + 1) k with
    | true, true =>
      if twice < den || (twice == den && d % 2 == 0) then (d, k) else (d + 1, k)
    | true, false => (d, k)
    | false, true => (d + 1, k)
    | false, false => shortestFrom m q edge top fuel (count + 1)

/-- The shortest decimal `d * 10 ^ k` that reads back as the double with the positive value
`m * 2 ^ q`. -/
def shortest (m : Nat) (q : Int) (edge : Bool) : Nat × Int :=
  let (num, den) := fraction m q
  shortestFrom m q edge (decimalExponent num den) 17 1

/-- Digits without the zeros at their end, and the exponent that makes up for them. -/
def dropZeros (digits : List Char) (k : Int) : List Char × Int :=
  let kept := (digits.reverse.dropWhile (· == '0')).reverse
  (kept, k + (digits.length - kept.length : Nat))

/-! ## Layout -/

/-- How a decimal is laid out: between the two exponents with a point and a digit after it,
otherwise with an exponent and its sign. -/
structure RealFormat where
  /-- The least decimal exponent that is written with a point. -/
  leastPlain : Int
  /-- The greatest decimal exponent that is written with a point. -/
  greatestPlain : Int
  /-- The mark before the exponent. -/
  mark : String

/-- The text of a positive decimal `digits * 10 ^ k`. -/
def RealFormat.layout (format : RealFormat) (digits : List Char) (k : Int) : String :=
  let (digits, k) := dropZeros digits k
  let n : Int := digits.length
  let exponent := n + k - 1
  let chars : List Char :=
    if format.leastPlain ≤ exponent ∧ exponent ≤ format.greatestPlain then
      if 0 ≤ k then digits ++ List.replicate k.toNat '0' ++ ['.', '0']
      else if 0 ≤ exponent then
        digits.take (exponent + 1).toNat ++ '.' :: digits.drop (exponent + 1).toNat
      else '0' :: '.' :: List.replicate (-exponent - 1).toNat '0' ++ digits
    else
      let lead := digits.take 1 ++ (if n = 1 then [] else '.' :: digits.drop 1)
      lead ++ format.mark.toList ++ [if exponent < 0 then '-' else '+'] ++
        (toString exponent.natAbs).toList
  String.ofList chars

/-- The text of a finite double, `none` for the others. -/
def RealFormat.text? (format : RealFormat) (x : Float) : Option String :=
  match Binary.ofFloat x with
  | .finite negative m q edge =>
    let sign := if negative then "-" else ""
    if m = 0 then some (sign ++ "0.0")
    else
      let (d, k) := shortest m q edge
      some (sign ++ format.layout (toString d).toList k)
  | _ => none

end Numeric

end SourceIndex
