set_option autoImplicit false

/-! # Lines, blanks and words

Text is read as a list of characters. A newline ends a line, a carriage return right before
the newline belongs to the line end, and text after the last newline is a line of its own
unless it is empty. A blank is a character of the Unicode class White_Space; a word is a
maximal run of characters that are not blank.

The functions on `List Char` carry the rules, those on `String` wrap them.
-/

namespace SourceIndex

namespace Text

/-! ## Pieces and lines -/

/-- The pieces of a list between the elements that satisfy `cut`; there is one more piece
than there are such elements. -/
def pieces (cut : Char → Bool) (cs : List Char) : List (List Char) :=
  cs.foldr
    (fun c acc =>
      if cut c then [] :: acc
      else
        match acc with
        | [] => [[c]]
        | piece :: rest => (c :: piece) :: rest)
    [[]]

/-- A line without the carriage return at its end, if it has one. -/
def dropReturn (line : List Char) : List Char :=
  if line.getLast? = some '\r' then line.dropLast else line

/-- The lines of a text given as characters. -/
def lineChars (cs : List Char) : List (List Char) :=
  let all := pieces (· == '\n') cs
  let tail := all.getLastD []
  all.dropLast.map dropReturn ++ if tail.isEmpty then [] else [tail]

/-- The lines of a text. -/
def lines (text : String) : List String :=
  (lineChars text.toList).map String.ofList

/-- Lines joined by newlines. -/
def unlines (ls : List String) : String :=
  "\n".intercalate ls

/-- The pieces of a text between the characters that satisfy `cut`. -/
def split (cut : Char → Bool) (text : String) : List String :=
  (pieces cut text.toList).map String.ofList

/-! ## Blanks -/

/-- The Unicode class White_Space. -/
def isBlank (c : Char) : Bool :=
  let n := c.toNat
  (0x09 ≤ n && n ≤ 0x0d) || n == 0x20 || n == 0x85 || n == 0xa0 || n == 0x1680 ||
    (0x2000 ≤ n && n ≤ 0x200a) || n == 0x2028 || n == 0x2029 || n == 0x202f || n == 0x205f ||
    n == 0x3000

/-- A list without the leading elements that satisfy `p`. -/
def trimLeftChars (p : Char → Bool) (cs : List Char) : List Char :=
  cs.dropWhile p

/-- A list without the trailing elements that satisfy `p`. -/
def trimRightChars (p : Char → Bool) (cs : List Char) : List Char :=
  (cs.reverse.dropWhile p).reverse

/-- A list without the elements at either end that satisfy `p`. -/
def trimChars (p : Char → Bool) (cs : List Char) : List Char :=
  trimRightChars p (trimLeftChars p cs)

/-- A text without leading characters that satisfy `p`. -/
def trimLeftWhere (p : Char → Bool) (text : String) : String :=
  String.ofList (trimLeftChars p text.toList)

/-- A text without trailing characters that satisfy `p`. -/
def trimRightWhere (p : Char → Bool) (text : String) : String :=
  String.ofList (trimRightChars p text.toList)

/-- A text without leading blanks. -/
def trimLeft (text : String) : String := trimLeftWhere isBlank text

/-- A text without trailing blanks. -/
def trimRight (text : String) : String := trimRightWhere isBlank text

/-- A text without blanks at either end. -/
def trim (text : String) : String := String.ofList (trimChars isBlank text.toList)

/-- Whether a text has no character but blanks. -/
def isBlankText (text : String) : Bool := text.toList.all isBlank

/-- The words of a text: its maximal runs of characters that are not blank. -/
def words (text : String) : List String :=
  ((pieces isBlank text.toList).filter (!·.isEmpty)).map String.ofList

/-- A text with each run of blanks replaced by one space and none at the ends. -/
def collapse (text : String) : String :=
  " ".intercalate (words text)

/-! ## Parts of a text -/

/-- The characters of `cs` after `lead`, if `cs` begins with it. -/
def dropLead? : (lead : List Char) → (cs : List Char) → Option (List Char)
  | [], cs => some cs
  | _ :: _, [] => none
  | a :: lead, c :: cs => if a = c then dropLead? lead cs else none

/-- The characters of `cs` after as many repetitions of `lead` as it begins with. -/
def dropLeads (lead cs : List Char) : List Char :=
  match dropLead? lead cs with
  | none => cs
  | some rest => if rest.length < cs.length then dropLeads lead rest else cs
termination_by cs.length

/-- A text without the repetitions of `lead` it begins with. -/
def trimLeads (lead text : String) : String :=
  String.ofList (dropLeads lead.toList text.toList)

/-- A text without the repetitions of `tail` it ends with. -/
def trimTails (tail text : String) : String :=
  String.ofList (dropLeads tail.toList.reverse text.toList.reverse).reverse

/-- Whether `cs` begins with `lead`. -/
def leads (lead cs : List Char) : Bool := (dropLead? lead cs).isSome

/-- Whether `text` begins with `lead`. -/
def startsWith (text lead : String) : Bool := leads lead.toList text.toList

/-- Whether `text` ends with `tail`. -/
def endsWith (text tail : String) : Bool := leads tail.toList.reverse text.toList.reverse

/-- The text after `lead`, if `text` begins with it. -/
def stripLead? (text lead : String) : Option String :=
  (dropLead? lead.toList text.toList).map String.ofList

/-- The part of `cs` before the first occurrence of `part` and the part after it. -/
def cutAt? (part : List Char) : List Char → Option (List Char × List Char)
  | [] => (dropLead? part []).map fun rest => ([], rest)
  | c :: cs =>
    match dropLead? part (c :: cs) with
    | some rest => some ([], rest)
    | none => (cutAt? part cs).map fun (before, rest) => (c :: before, rest)

/-- Whether `part` occurs in `cs`. -/
def occursIn (part : List Char) : List Char → Bool
  | [] => leads part []
  | c :: cs => leads part (c :: cs) || occursIn part cs

/-- Whether `part` occurs in `text`. -/
def contains (text part : String) : Bool := occursIn part.toList text.toList

/-- The text between the byte offsets `start` and `stop`, if both lie on character
boundaries of `text` in this order. -/
def slice? (text : String) (start stop : Nat) : Option String :=
  if start ≤ stop ∧ (String.Pos.Raw.mk start).isValid text ∧ (String.Pos.Raw.mk stop).isValid text then
    some (String.Pos.Raw.extract text ⟨start⟩ ⟨stop⟩)
  else none

/-- The first characters of a text, as many as fit whole into `limit` bytes. -/
def leadingBytes (limit : Nat) (text : String) : String :=
  let rec go (room : Nat) : List Char → List Char
    | [] => []
    | c :: cs => if c.utf8Size ≤ room then c :: go (room - c.utf8Size) cs else []
  if text.utf8ByteSize ≤ limit then text else String.ofList (go limit text.toList)

/-- The order of texts by their UTF-8 bytes, which is the order of their characters. -/
def le (a b : String) : Bool := !decide (b < a)

end Text

end SourceIndex
