set_option autoImplicit false

/-! # Patterns of names

A pattern is matched against a whole name: `?` stands for one character, `*` for any
characters, `[...]` for one of the characters or ranges in it and `[!...]` for one of the
others. `**` must be a whole part between slashes, and a name, which has no slash, meets it
only with nothing or with all of its rest. Other characters stand for themselves.

* `NamePattern.parse?`: the pattern a text spells, if it is valid.
* `NamePattern.accepts`: whether a name fits.
-/

namespace SourceIndex

/-- Characters from `lo` to `hi`. -/
structure CharRange where
  lo : Char
  hi : Char
  deriving DecidableEq, Repr, Inhabited

/-- A part of a pattern. -/
inductive PatternToken where
  | char (c : Char)
  | any
  | star
  /-- A `**` with the slash after it, if it has one. -/
  | deep
  | oneOf (ranges : List CharRange)
  | noneOf (ranges : List CharRange)
  deriving DecidableEq, Repr, Inhabited

/-- A pattern of names. -/
structure NamePattern where
  /-- The pattern as it is spelled. -/
  text : String
  tokens : List PatternToken
  deriving DecidableEq, Repr, Inhabited

namespace NamePattern

/-! ## Reading patterns -/

/-- The ranges spelled by the inside of brackets. -/
def rangesOf : List Char → List CharRange
  | a :: '-' :: b :: rest => ⟨a, b⟩ :: rangesOf rest
  | a :: rest => ⟨a, a⟩ :: rangesOf rest
  | [] => []

/-- The inside of brackets, whose first character may be a closing one, and the rest. -/
def readBracket? : List Char → Option (List Char × List Char)
  | [] => none
  | c :: rest =>
    let inside := rest.takeWhile (· != ']')
    if inside.length < rest.length then some (c :: inside, rest.drop (inside.length + 1)) else none

/-- The tokens spelled by the characters after `previous`; `done` holds those already read,
the last one first. -/
def readTokens? (previous : Option Char) (done : List PatternToken) :
    (fuel : Nat) → List Char → Option (List PatternToken)
  | 0, _ => none
  | _ + 1, [] => some done.reverse
  | fuel + 1, '?' :: rest => readTokens? (some '?') (.any :: done) fuel rest
  | fuel + 1, '*' :: rest =>
    let stars := rest.takeWhile (· == '*')
    let after := rest.drop stars.length
    match stars with
    | [] => readTokens? (some '*') (.star :: done) fuel after
    | [_] =>
      if previous.isNone || previous == some '/' then
        let done :=
          if 1 < done.length && done.head? == some .deep then done else .deep :: done
        match after with
        | [] => readTokens? (some '*') done fuel []
        | '/' :: after => readTokens? (some '/') done fuel after
        | _ => none
      else none
    | _ => none
  | fuel + 1, '[' :: '!' :: rest =>
    (readBracket? rest).bind fun (inside, after) =>
      readTokens? (some ']') (.noneOf (rangesOf inside) :: done) fuel after
  | fuel + 1, '[' :: rest =>
    (readBracket? rest).bind fun (inside, after) =>
      readTokens? (some ']') (.oneOf (rangesOf inside) :: done) fuel after
  | fuel + 1, c :: rest => readTokens? (some c) (.char c :: done) fuel rest

/-- The pattern a text spells. -/
def parse? (text : String) : Option NamePattern :=
  (readTokens? none [] (text.length + 1) text.toList).map fun tokens => ⟨text, tokens⟩

/-! ## Matching -/

/-- Whether a character lies in one of the ranges. -/
def inRanges (ranges : List CharRange) (c : Char) : Bool :=
  ranges.any fun r => r.lo ≤ c && c ≤ r.hi

/-- Whether a character fits a token that stands for one character. -/
def tokenFits (c : Char) : PatternToken → Bool
  | .char d => c == d
  | .any => true
  | .oneOf ranges => inRanges ranges c
  | .noneOf ranges => !inRanges ranges c
  | .star | .deep => false

/-- A list and all that is left of it when characters are taken off the front. -/
def suffixes : List Char → List (List Char)
  | [] => [[]]
  | c :: cs => (c :: cs) :: suffixes cs

/-- What may be left of a list after a `**`: all of it, what follows a slash, or nothing. -/
def deepRests (cs : List Char) : List (List Char) :=
  let rec afterSlashes : List Char → List (List Char)
    | [] => [[]]
    | c :: cs => if c = '/' then cs :: afterSlashes cs else afterSlashes cs
  cs :: afterSlashes cs

/-- Whether the characters fit the tokens. -/
def fits : List PatternToken → List Char → Bool
  | [], cs => cs.isEmpty
  | .star :: ts, cs => (suffixes cs).any (fits ts)
  | .deep :: ts, cs => (deepRests cs).any (fits ts)
  | t :: ts, cs =>
    match cs with
    | [] => false
    | c :: cs => tokenFits c t && fits ts cs

/-- Whether a name fits a pattern. -/
def accepts (p : NamePattern) (name : String) : Bool := fits p.tokens name.toList

end NamePattern

end SourceIndex
