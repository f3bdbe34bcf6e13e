import SourceIndex.Text.Basic
import SourceIndex.Text.Hex
import SourceIndex.Toml.Basic

set_option autoImplicit false

/-! # Reading TOML

The grammar of TOML 1.0, read from a list of characters. A reader of a part returns its value
and the rest; `none` stands for any error. Arrays and inline tables nest at most 79 deep.

* `Toml.read?`: the fields of the document a text spells.
-/

namespace SourceIndex

namespace Toml

/-! ## Blanks, line ends and comments -/

/-- Characters without leading spaces and tabs. -/
def skipSpace (cs : List Char) : List Char := cs.dropWhile fun c => c == ' ' || c == '\t'

/-- Whether a character may stand in a comment. -/
def isCommentChar (c : Char) : Bool :=
  c == '\t' || (0x20 ≤ c.toNat && c.toNat ≤ 0x7e) || 0x80 ≤ c.toNat

/-- Characters without a comment, if one stands at their head. -/
def skipComment : List Char → List Char
  | '#' :: rest => rest.dropWhile isCommentChar
  | cs => cs

/-- The rest after a line end. -/
def lineEnd? : List Char → Option (List Char)
  | '\n' :: rest => some rest
  | '\r' :: '\n' :: rest => some rest
  | _ => none

/-- Characters without leading blanks, line ends and comments. -/
def skipLines : (fuel : Nat) → List Char → List Char
  | 0, cs => cs
  | fuel + 1, cs =>
    let cs := skipComment (skipSpace cs)
    match lineEnd? cs with
    | some rest => skipLines fuel rest
    | none => cs

/-! ## Strings -/

/-- The value of hexadecimal digits, as many as asked for. -/
def readHexDigits? : (count value : Nat) → List Char → Option (Nat × List Char)
  | 0, value, cs => some (value, cs)
  | count + 1, value, c :: rest => do
    let d ← Text.hexValue? c
    readHexDigits? count (value * 16 + d) rest
  | _ + 1, _, [] => none

/-- The character of an escape, after its backslash. -/
def readEscape? : List Char → Option (Char × List Char)
  | 'b' :: rest => some ('\x08', rest)
  | 't' :: rest => some ('\t', rest)
  | 'n' :: rest => some ('\n', rest)
  | 'f' :: rest => some ('\x0c', rest)
  | 'r' :: rest => some ('\r', rest)
  | '"' :: rest => some ('"', rest)
  | '\\' :: rest => some ('\\', rest)
  | c :: rest =>
    if c = 'u' ∨ c = 'U' then do
      let (n, rest) ← readHexDigits? (if c = 'u' then 4 else 8) 0 rest
      if n.isValidChar then some (Char.ofNat n, rest) else none
    else none
  | [] => none

/-- Whether a character may stand unescaped in a string. -/
def isPlain (c : Char) : Bool :=
  c == '\t' || (0x20 ≤ c.toNat && c.toNat ≤ 0x7e) || 0x80 ≤ c.toNat

/-- The rest of a one-line string between `quote`s, escapes read unless it is literal. -/
def readLineString? (literal : Bool) (quote : Char) (acc : List Char) :
    (fuel : Nat) → List Char → Option (String × List Char)
  | 0, _ => none
  | _ + 1, [] => none
  | fuel + 1, c :: rest =>
    if c = quote then some (String.ofList acc.reverse, rest)
    else if c = '\\' ∧ !literal then do
      let (e, rest) ← readEscape? rest
      readLineString? literal quote (e :: acc) fuel rest
    else if isPlain c then readLineString? literal quote (c :: acc) fuel rest
    else none

/-- The rest of a string between three `quote`s each; up to two more stand before its end. -/
def readBlockString? (literal : Bool) (quote : Char) (acc : List Char) :
    (fuel : Nat) → List Char → Option (String × List Char)
  | 0, _ => none
  | _ + 1, [] => none
  | fuel + 1, c :: rest =>
    if c = quote then
      let quotes := (c :: rest).takeWhile (· == quote)
      let after := (c :: rest).drop quotes.length
      if quotes.length < 3 then readBlockString? literal quote (quotes ++ acc) fuel after
      else if quotes.length < 6 then
        some (String.ofList (List.replicate (quotes.length - 3) quote ++ acc).reverse, after)
      else none
    else
      match lineEnd? (c :: rest) with
      | some after => readBlockString? literal quote ('\n' :: acc) fuel after
      | none =>
        if c = '\\' ∧ !literal then
          match lineEnd? (skipSpace rest) with
          | some after =>
            readBlockString? literal quote acc fuel
              (after.dropWhile fun c => c == ' ' || c == '\t' || c == '\n' || c == '\r')
          | none => do
            let (e, rest) ← readEscape? rest
            readBlockString? literal quote (e :: acc) fuel rest
        else if isPlain c then readBlockString? literal quote (c :: acc) fuel rest
        else none

/-- The string that begins with the given quote. -/
def readString? (quote : Char) (cs : List Char) : Option (String × List Char) :=
  let literal : Bool := quote == '\''
  match Text.dropLead? [quote, quote, quote] cs with
  | some rest =>
    let rest := (lineEnd? rest).getD rest
    readBlockString? literal quote [] (rest.length + 1) rest
  | none =>
    match cs with
    | _ :: rest => readLineString? literal quote [] (rest.length + 1) rest
    | [] => none

/-! ## Keys -/

/-- Whether a character may stand in a bare key. -/
def isBareKeyChar (c : Char) : Bool := c.isAlphanum || c == '_' || c == '-'

/-- One part of a key; a quoted part is a one-line string. -/
def readKeyPart? (cs : List Char) : Option (String × List Char) :=
  match cs with
  | '"' :: rest => readLineString? false '"' [] (rest.length + 1) rest
  | '\'' :: rest => readLineString? true '\'' [] (rest.length + 1) rest
  | _ =>
    let name := cs.takeWhile isBareKeyChar
    if name.isEmpty then none else some (String.ofList name, cs.drop name.length)

/-- A key with its parts between dots. -/
def readKey? : (fuel : Nat) → List Char → Option (List String × List Char)
  | 0, _ => none
  | fuel + 1, cs => do
    let (part, rest) ← readKeyPart? (skipSpace cs)
    match skipSpace rest with
    | '.' :: rest =>
      let (parts, rest) ← readKey? fuel rest
      some (part :: parts, rest)
    | rest => some ([part], rest)

/-! ## Numbers -/

/-- Digits with single underscores between them, the underscores left out. -/
def readDigits? (isDigit : Char → Bool) (acc : List Char) : List Char → Option (List Char × List Char)
  | [] => if acc.isEmpty then none else some (acc.reverse, [])
  | c :: rest =>
    if isDigit c then readDigits? isDigit (c :: acc) rest
    else if c = '_' then
      match rest with
      | d :: rest => if !acc.isEmpty && isDigit d then readDigits? isDigit (d :: acc) rest else none
      | [] => none
    else if acc.isEmpty then none
    else some (acc.reverse, c :: rest)

/-- The number spelled by digits in a base. -/
def valueOf (base : Nat) (digits : List Char) : Nat :=
  digits.foldl (fun n d => n * base + (Text.hexValue? d).getD 0) 0

/-- An integer that fits into 64 bits. -/
def int? (n : Int) : Option Toml :=
  if Int64.minValue.toInt ≤ n ∧ n ≤ Int64.maxValue.toInt then some (.int n) else none

/-- A sign, and whether it is a minus. -/
def readSign : List Char → Bool × List Char
  | '-' :: rest => (true, rest)
  | '+' :: rest => (false, rest)
  | cs => (false, cs)

/-- The double nearest to `digits * 10 ^ power`. -/
def realOf (digits : Nat) (power : Int) : Float :=
  let size : Int := (toString digits).length
  if digits = 0 ∨ size + power < -400 then 0.0
  else if 400 < size + power then 1.0 / 0.0
  else if power < 0 then Float.ofScientific digits true power.natAbs
  else Float.ofScientific digits false power.natAbs

/-- An exponent after its mark. -/
def readPower? (cs : List Char) : Option (Int × List Char) := do
  let (negative, cs) := readSign cs
  let (digits, rest) ← readDigits? Char.isDigit [] cs
  let n : Int := valueOf 10 digits
  some (if negative then -n else n, rest)

/-- A decimal number after its sign. -/
def readDecimal? (negative : Bool) (cs : List Char) : Option (Toml × List Char) := do
  let (whole, rest) ←
    match cs with
    | '0' :: rest => some (['0'], rest)
    | cs => readDigits? Char.isDigit [] cs
  let signed (x : Float) : Float := if negative then -x else x
  let real (x : Float) (rest : List Char) : Option (Toml × List Char) :=
    let x := signed x
    if x == 1.0 / 0.0 then none else some (.real x, rest)
  match rest with
  | '.' :: rest =>
    let (places, rest) ← readDigits? Char.isDigit [] rest
    let digits := valueOf 10 (whole ++ places)
    let scale : Int := places.length
    match rest with
    | 'e' :: rest | 'E' :: rest =>
      let (power, rest) ← readPower? rest
      real (realOf digits (power - scale)) rest
    | _ => real (realOf digits (-scale)) rest
  | 'e' :: rest | 'E' :: rest =>
    let (power, rest) ← readPower? rest
    real (realOf (valueOf 10 whole) power) rest
  | _ =>
    let n : Int := valueOf 10 whole
    (int? (if negative then -n else n)).map fun v => (v, rest)

/-- An integer in base two, eight or sixteen. -/
def readBased? (base : Nat) (cs : List Char) : Option (Toml × List Char) := do
  let isDigit (c : Char) : Bool := ((Text.hexValue? c).map (decide <| · < base)).getD false
  let (digits, rest) ← readDigits? isDigit [] cs
  (int? (valueOf base digits)).map fun v => (v, rest)

/-- A number of any form. -/
def readNumber? (cs : List Char) : Option (Toml × List Char) :=
  match cs with
  | '0' :: 'x' :: rest => readBased? 16 rest
  | '0' :: 'o' :: rest => readBased? 8 rest
  | '0' :: 'b' :: rest => readBased? 2 rest
  | _ =>
    let (negative, rest) := readSign cs
    match Text.dropLead? "inf".toList rest with
    | some rest => some (.real (if negative then -1.0 / 0.0 else 1.0 / 0.0), rest)
    | none =>
      match Text.dropLead? "nan".toList rest with
      | some rest => some (.real (0.0 / 0.0), rest)
      | none => readDecimal? negative rest

/-! ## Dates and times -/

/-- A number of exactly `count` digits. -/
def readFixed? (count : Nat) (cs : List Char) : Option (Nat × List Char) :=
  let digits := cs.take count
  if digits.length = count ∧ digits.all Char.isDigit then some (valueOf 10 digits, cs.drop count)
  else none

/-- The rest after a character. -/
def skipChar? (c : Char) : List Char → Option (List Char)
  | d :: rest => if c = d then some rest else none
  | [] => none

/-- How many days a month has. -/
def daysIn (year month : Nat) : Nat :=
  if month = 2 then
    if year % 4 = 0 ∧ (year % 100 ≠ 0 ∨ year % 400 = 0) then 29 else 28
  else if month = 4 ∨ month = 6 ∨ month = 9 ∨ month = 11 then 30
  else 31

/-- The rest after a date. -/
def skipDate? (cs : List Char) : Option (List Char) := do
  let (year, cs) ← readFixed? 4 cs
  let cs ← skipChar? '-' cs
  let (month, cs) ← readFixed? 2 cs
  let cs ← skipChar? '-' cs
  let (day, cs) ← readFixed? 2 cs
  if 1 ≤ month ∧ month ≤ 12 ∧ 1 ≤ day ∧ day ≤ daysIn year month then some cs else none

/-- The rest after a time of day. -/
def skipTime? (cs : List Char) : Option (List Char) := do
  let (hour, cs) ← readFixed? 2 cs
  let cs ← skipChar? ':' cs
  let (minute, cs) ← readFixed? 2 cs
  let cs ← skipChar? ':' cs
  let (second, cs) ← readFixed? 2 cs
  if hour ≤ 23 ∧ minute ≤ 59 ∧ second ≤ 60 then
    match cs with
    | '.' :: rest =>
      let places := rest.takeWhile Char.isDigit
      if places.isEmpty then none else some (rest.drop places.length)
    | cs => some cs
  else none

/-- The rest after an offset from universal time, which may be absent. -/
def skipOffset? (cs : List Char) : Option (List Char) :=
  match cs with
  | 'Z' :: rest | 'z' :: rest => some rest
  | '+' :: rest | '-' :: rest => do
    let (hour, rest) ← readFixed? 2 rest
    let rest ← skipChar? ':' rest
    let (minute, rest) ← readFixed? 2 rest
    if hour ≤ 23 ∧ minute ≤ 59 then some rest else none
  | cs => some cs

/-- The rest after a date, a time or both. -/
def skipMoment? (cs : List Char) : Option (List Char) :=
  match skipDate? cs with
  | some rest =>
    match rest with
    | c :: after =>
      if c = 'T' ∨ c = 't' ∨ c = ' ' then
        match skipTime? after with
        | some rest => skipOffset? rest
        | none => if c = ' ' then some rest else none
      else some rest
    | [] => some []
  | none => skipTime? cs

/-! ## Values -/

/-- How deep arrays and inline tables nest at most. -/
def maxDepth : Nat := 79

mutual

/-- A value at the head of the characters, `room` levels of nesting left. -/
def readValue? (room : Nat) : (fuel : Nat) → List Char → Option (Toml × List Char)
  | 0, _ => none
  | fuel + 1, cs =>
    match cs with
    | '"' :: _ => (readString? '"' cs).map fun (s, rest) => (.str s, rest)
    | '\'' :: _ => (readString? '\'' cs).map fun (s, rest) => (.str s, rest)
    | '[' :: rest => if room = 0 then none else readItems? (room - 1) [] fuel rest
    | '{' :: rest =>
      if room = 0 then none
      else
        match skipSpace rest with
        | '}' :: rest => some (.inline .explicit [], rest)
        | rest => readFields? (room - 1) [] fuel rest
    | _ =>
      match Text.dropLead? "true".toList cs with
      | some rest => some (.bool true, rest)
      | none =>
        match Text.dropLead? "false".toList cs with
        | some rest => some (.bool false, rest)
        | none =>
          match skipMoment? cs with
          | some rest => some (.moment, rest)
          | none => readNumber? cs

/-- The items of an array up to its closing bracket; `acc` holds those already read,
reversed. -/
def readItems? (room : Nat) (acc : List Toml) : (fuel : Nat) → List Char → Option (Toml × List Char)
  | 0, _ => none
  | fuel + 1, cs =>
    match skipLines cs.length cs with
    | ']' :: rest => some (.array acc.reverse, rest)
    | cs => do
      let (v, rest) ← readValue? room fuel cs
      match skipLines rest.length rest with
      | ',' :: rest => readItems? room (v :: acc) fuel rest
      | ']' :: rest => some (.array (v :: acc).reverse, rest)
      | _ => none

/-- The fields of an inline table up to its closing brace. -/
def readFields? (room : Nat) (acc : Fields) : (fuel : Nat) → List Char → Option (Toml × List Char)
  | 0, _ => none
  | fuel + 1, cs => do
    let (key, rest) ← readKey? cs.length cs
    match rest with
    | '=' :: rest =>
      let (v, rest) ← readValue? room fuel (skipSpace rest)
      let acc ← insert? true acc v key
      match skipSpace rest with
      | ',' :: rest => readFields? room acc fuel rest
      | '}' :: rest => some (.inline .explicit acc, rest)
      | _ => none
    | _ => none

end

/-! ## Documents -/

/-- The rest of a line after its expression: a comment at most, then the line end or the end of
the document. -/
def endOfLine? (cs : List Char) : Option (List Char) :=
  match skipComment (skipSpace cs) with
  | [] => some []
  | cs => lineEnd? cs

/-- A header after its opening bracket: its path and the rest after its closing brackets. -/
def readHeader? (close : List Char) (cs : List Char) : Option (List String × List Char) := do
  let (path, rest) ← readKey? cs.length cs
  let rest ← Text.dropLead? close rest
  some (path, rest)

/-- The document made from the lines that remain; `here` is the path of the last header. -/
def readLines? (document : Fields) (here : List String) : (fuel : Nat) → List Char → Option Fields
  | 0, _ => some document
  | fuel + 1, cs =>
    match skipSpace cs with
    | [] => some document
    | '#' :: rest => do
      let rest ← endOfLine? ('#' :: rest)
      readLines? document here fuel rest
    | '[' :: '[' :: rest => do
      let (path, rest) ← readHeader? [']', ']'] rest
      let rest ← endOfLine? rest
      let document ← openElement? document path
      readLines? document path fuel rest
    | '[' :: rest => do
      let (path, rest) ← readHeader? [']'] rest
      let rest ← endOfLine? rest
      let document ← openTable? document path
      readLines? document path fuel rest
    | cs =>
      match lineEnd? cs with
      | some rest => readLines? document here fuel rest
      | none => do
        let (key, rest) ← readKey? cs.length cs
        let rest ← skipChar? '=' rest
        let (v, rest) ← readValue? maxDepth (2 * rest.length + 2) (skipSpace rest)
        let rest ← endOfLine? rest
        let document ← within? (fun fs => insert? false fs v key) document here
        readLines? document here fuel rest

/-- The fields of the document a text spells, a byte order mark allowed before it. -/
def read? (text : String) : Option Fields :=
  let cs := text.toList
  let cs :=
    match cs with
    | c :: rest => if c.toNat = 0xfeff then rest else cs
    | [] => []
  readLines? [] [] (cs.length + 1) cs

end Toml

end SourceIndex
