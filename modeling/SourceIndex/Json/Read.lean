import SourceIndex.Json.Basic
import SourceIndex.Text.Basic

set_option autoImplicit false

/-! # Reading JSON

The grammar of JSON with three limits: values nest at most 127 deep, a number must not
overflow, and an escaped surrogate must be half of a pair.

* `Json.read?`: the value a text spells, if it spells one.
* `Json.scaled?`: the double read from a significand and a power of ten.

A number keeps as many of its digits as fit into 64 bits; the double is the product or the
quotient of that significand and a power of ten, each rounded.
-/

namespace SourceIndex

namespace Json

/-! ## Numbers -/

/-- A double scaled by a power of ten, `none` on overflow. Powers beyond `10 ^ 308` are
divided away in steps. -/
def scaleFrom (f : Float) : (fuel : Nat) → (exponent : Int) → Option Float
  | 0, _ => some f
  | fuel + 1, exponent =>
    if exponent.natAbs ≤ 308 then
      let power := Float.ofScientific 1 false exponent.natAbs
      if 0 ≤ exponent then
        let g := f * power
        if g.isInf then none else some g
      else some (f / power)
    else if f == 0.0 then some f
    else if 0 ≤ exponent then none
    else scaleFrom (f / Float.ofScientific 1 false 308) fuel (exponent + 308)

/-- The double read from `significand * 10 ^ exponent`, `none` on overflow. -/
def scaled? (negative : Bool) (significand : Nat) (exponent : Int) : Option Float :=
  (scaleFrom significand.toUInt64.toFloat 8 exponent).map fun f => if negative then -f else f

/-- Whether another digit fits into 64 bits. -/
def fits (significand digit : Nat) : Bool := significand * 10 + digit < UInt64.size

/-- The value of a decimal digit. -/
def digitValue (c : Char) : Nat := c.toNat - 48

/-- Leading digits and the rest. -/
def spanDigits (cs : List Char) : List Char × List Char := (cs.takeWhile Char.isDigit, cs.dropWhile Char.isDigit)

/-- The significand of a digit sequence, as long as it fits, and the digits left over. -/
def significandOf (start : Nat) : List Char → Nat × List Char
  | [] => (start, [])
  | c :: cs =>
    if fits start (digitValue c) then significandOf (start * 10 + digitValue c) cs
    else (start, c :: cs)

/-- The exponent spelled after `e` by a sign and digits. -/
def readExponent? (cs : List Char) : Option (Int × List Char) :=
  let (negative, cs) :=
    match cs with
    | '+' :: rest => (false, rest)
    | '-' :: rest => (true, rest)
    | _ => (false, cs)
  let (digits, rest) := spanDigits cs
  if digits.isEmpty then none
  else
    let n : Int := digits.foldl (fun n c => n * 10 + digitValue c) 0
    some (if negative then -n else n, rest)

/-- A number at the head of the characters. -/
def readNumber? (cs : List Char) : Option (Json × List Char) := do
  let (negative, cs) :=
    match cs with
    | '-' :: rest => (true, rest)
    | _ => (false, cs)
  let (whole, rest) := spanDigits cs
  if whole.isEmpty || (whole.head? == some '0' && whole.length > 1) then none
  else
    let (significand, left) := significandOf 0 whole
    let before : Int := left.length
    let (point, significand, exponent, rest) ←
      match rest with
      | '.' :: rest =>
        let (places, rest) := spanDigits rest
        if places.isEmpty then none
        else
          let (s, unread) := significandOf significand places
          some (true, s, before - ((places.length - unread.length : Nat) : Int), rest)
      | _ => some (!left.isEmpty, significand, before, rest)
    let real (power : Int) (rest : List Char) : Option (Json × List Char) :=
      (scaled? negative significand power).map fun x => (.real x, rest)
    match rest with
    | 'e' :: rest | 'E' :: rest =>
      let (power, rest) ← readExponent? rest
      if power.natAbs ≥ UInt32.size / 2 then
        if significand ≠ 0 && power > 0 then none
        else some (.real (if negative then -0.0 else 0.0), rest)
      else real (exponent + power) rest
    | _ =>
      if point then real exponent rest
      else if !negative then some (.int significand, rest)
      else if significand = 0 || significand > UInt64.size / 2 then
        some (.real (-significand.toUInt64.toFloat), rest)
      else some (.int (-significand), rest)

/-! ## Strings -/

/-- Four hexadecimal digits. -/
def readHex4? : List Char → Option (Nat × List Char)
  | a :: b :: c :: d :: rest => do
    let a ← Text.hexValue? a
    let b ← Text.hexValue? b
    let c ← Text.hexValue? c
    let d ← Text.hexValue? d
    some (((a * 16 + b) * 16 + c) * 16 + d, rest)
  | _ => none

/-- The character of an escape, after its backslash. -/
def readEscape? : List Char → Option (Char × List Char)
  | '"' :: rest => some ('"', rest)
  | '\\' :: rest => some ('\\', rest)
  | '/' :: rest => some ('/', rest)
  | 'b' :: rest => some ('\x08', rest)
  | 'f' :: rest => some ('\x0c', rest)
  | 'n' :: rest => some ('\n', rest)
  | 'r' :: rest => some ('\r', rest)
  | 't' :: rest => some ('\t', rest)
  | 'u' :: rest => do
    let (n, rest) ← readHex4? rest
    if 0xdc00 ≤ n && n < 0xe000 then none
    else if 0xd800 ≤ n && n < 0xdc00 then
      match rest with
      | '\\' :: 'u' :: rest =>
        let (low, rest) ← readHex4? rest
        if 0xdc00 ≤ low && low < 0xe000 then
          some (Char.ofNat (0x10000 + (n - 0xd800) * 0x400 + (low - 0xdc00)), rest)
        else none
      | _ => none
    else some (Char.ofNat n, rest)
  | _ => none

/-- The rest of a string after its opening quote; `acc` holds what was read, reversed. -/
def readString? (acc : List Char) : (fuel : Nat) → List Char → Option (String × List Char)
  | 0, _ => none
  | _ + 1, [] => none
  | fuel + 1, c :: rest =>
    if c = '"' then some (String.ofList acc.reverse, rest)
    else if c = '\\' then do
      let (e, rest) ← readEscape? rest
      readString? (e :: acc) fuel rest
    else if c.toNat < 32 then none
    else readString? (c :: acc) fuel rest

/-! ## Values -/

/-- Characters without leading JSON blanks. -/
def skipBlanks (cs : List Char) : List Char :=
  cs.dropWhile fun c => c == ' ' || c == '\n' || c == '\t' || c == '\r'

/-- How deep values nest at most. -/
def maxDepth : Nat := 127

mutual

/-- A value at the head of the characters, `room` levels of nesting left. -/
def readValue? (room : Nat) : (fuel : Nat) → List Char → Option (Json × List Char)
  | 0, _ => none
  | fuel + 1, cs =>
    match skipBlanks cs with
    | [] => none
    | '"' :: rest => (readString? [] (rest.length + 1) rest).map fun (s, rest) => (.str s, rest)
    | '[' :: rest =>
      if room = 0 then none
      else
        match skipBlanks rest with
        | ']' :: rest => some (.arr [], rest)
        | rest => (readItems? (room - 1) [] fuel rest).map fun (vs, rest) => (.arr vs, rest)
    | '{' :: rest =>
      if room = 0 then none
      else
        match skipBlanks rest with
        | '}' :: rest => some (.obj [], rest)
        | rest => (readFields? (room - 1) [] fuel rest).map fun (fs, rest) => (.obj fs, rest)
    | cs =>
      match Text.dropLead? "null".toList cs with
      | some rest => some (.null, rest)
      | none =>
        match Text.dropLead? "true".toList cs with
        | some rest => some (.bool true, rest)
        | none =>
          match Text.dropLead? "false".toList cs with
          | some rest => some (.bool false, rest)
          | none => readNumber? cs

/-- Items up to the closing bracket; `acc` holds those already read, reversed. -/
def readItems? (room : Nat) (acc : List Json) :
    (fuel : Nat) → List Char → Option (List Json × List Char)
  | 0, _ => none
  | fuel + 1, cs => do
    let (v, rest) ← readValue? room fuel cs
    match skipBlanks rest with
    | ',' :: rest => readItems? room (v :: acc) fuel rest
    | ']' :: rest => some ((v :: acc).reverse, rest)
    | _ => none

/-- Fields up to the closing brace; `acc` holds those already read, reversed. -/
def readFields? (room : Nat) (acc : List (String × Json)) :
    (fuel : Nat) → List Char → Option (List (String × Json) × List Char)
  | 0, _ => none
  | fuel + 1, cs =>
    match skipBlanks cs with
    | '"' :: rest => do
      let (k, rest) ← readString? [] (rest.length + 1) rest
      match skipBlanks rest with
      | ':' :: rest =>
        let (v, rest) ← readValue? room fuel rest
        match skipBlanks rest with
        | ',' :: rest => readFields? room ((k, v) :: acc) fuel rest
        | '}' :: rest => some (((k, v) :: acc).reverse, rest)
        | _ => none
      | _ => none
    | _ => none

end

/-- The value a text spells, blanks around it allowed. -/
def read? (text : String) : Option Json :=
  let cs := text.toList
  match readValue? maxDepth (2 * cs.length + 2) cs with
  | some (v, rest) => if (skipBlanks rest).isEmpty then some v else none
  | none => none

end Json

end SourceIndex
