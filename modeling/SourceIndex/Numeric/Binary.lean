import SourceIndex.Text.Hex

set_option autoImplicit false

/-! # Binary floating-point numbers

A finite double is a sign, a natural significand `m` and an exponent `q`, and stands for
`m * 2 ^ q`. Everything that needs the exact value of a double starts from this form.
-/

namespace SourceIndex

namespace Numeric

/-- What the bits of a double say. -/
inductive Binary where
  /-- The number `± m * 2 ^ q`; `edge` holds when the next smaller double is half as far away
  as the next larger one. -/
  | finite (negative : Bool) (m : Nat) (q : Int) (edge : Bool)
  | infinite (negative : Bool)
  | nan
  deriving Repr

/-- The exact value of a double. -/
def Binary.ofFloat (x : Float) : Binary :=
  let bits : Nat := x.toBits.toNat
  let negative : Bool := (bits >>> 63) % 2 == 1
  let exponent : Nat := (bits >>> 52) % 2048
  let fraction : Nat := bits % Nat.pow 2 52
  if exponent = 2047 then if fraction = 0 then .infinite negative else .nan
  else if exponent = 0 then .finite negative fraction (-1074) false
  else
    .finite negative (Nat.pow 2 52 + fraction) ((exponent : Int) - 1075)
      (fraction == 0 && decide (1 < exponent))

/-- The value `m * 2 ^ q` as a fraction. -/
def fraction (m : Nat) (q : Int) : Nat × Nat :=
  if q < 0 then (m, Nat.pow 2 (-q).toNat) else (m * Nat.pow 2 q.toNat, 1)

/-- A double as the sixteen hexadecimal digits of its bits; what is not a number has its sign
bit set and its first fraction bit. -/
def hexOfFloat (x : Float) : String :=
  Text.hex 16 (if x.isNaN then 0xfff8000000000000 else x.toBits.toNat)

/-- A single as the eight hexadecimal digits of its bits, in the same way. -/
def hexOfFloat32 (x : Float32) : String :=
  Text.hex 8 (if x.isNaN then 0xffc00000 else x.toBits.toNat)

/-- The single whose bits have eight hexadecimal digits. -/
def float32OfHex? (text : String) : Option Float32 :=
  match text.toList.mapM Text.hexValue? with
  | some digits =>
    if digits.length = 8 then
      some (Float32.ofBits (digits.foldl (fun n d => 16 * n + d) 0).toUInt32)
    else none
  | none => none

end Numeric

end SourceIndex
