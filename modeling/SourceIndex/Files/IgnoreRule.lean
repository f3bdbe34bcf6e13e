import SourceIndex.Text.Basic

set_option autoImplicit false

/-! # Ignore files

An ignore file holds a rule a line: a pattern of paths below the file's directory, after `!` if
what fits shall be kept, with a slash at its end if only directories are meant. A pattern
without a slash inside fits at any depth.

In a pattern `?` stands for one byte and `*` for any bytes, none of them a slash, `[...]` for a
byte of a class, `{a,b}` for either alternative, and a backslash takes the next character as it
is. `**/` in front stands for any directories or none, `/**/` inside for a slash or any
directories, `/**` at the end for all that lies below. The rules of a file are asked from the
last to the first.

* `IgnoreRule.ofLine?`: the rule a line spells.
* `IgnoreRule.fits`: whether a path fits.
* `IgnoreRule.verdict`: what the rules of a file say about a path.
-/

namespace SourceIndex

/-- Bytes from `lo` to `hi`. -/
structure ByteRange where
  lo : UInt8
  hi : UInt8
  deriving DecidableEq, Repr

/-- A part of a path pattern. -/
inductive PathToken where
  | byte (b : UInt8)
  /-- One byte other than a slash. -/
  | any
  /-- Any bytes other than slashes. -/
  | star
  /-- A leading `**/`. -/
  | anyLead
  /-- A trailing `/**`. -/
  | anyTail
  /-- An inner `/**/`. -/
  | anyInner
  | class (negated : Bool) (ranges : List ByteRange)
  | either (alternatives : List (List PathToken))

namespace PathToken

/-- The byte of a slash. -/
def slash : UInt8 := 47

/-! ## Matching -/

/-- A list and all that is left of it when bytes that satisfy `p` are taken off the front. -/
def restsWhile (p : UInt8 → Bool) : List UInt8 → List (List UInt8)
  | [] => [[]]
  | b :: bs => (b :: bs) :: if p b then restsWhile p bs else []

/-- What may be left after a slash anywhere in a list. -/
def restsAfterSlash : List UInt8 → List (List UInt8)
  | [] => []
  | b :: bs => if b = slash then bs :: restsAfterSlash bs else restsAfterSlash bs

mutual

/-- What may be left of a list after a token. -/
def rests : PathToken → List UInt8 → List (List UInt8)
  | .byte b, bs =>
    match bs with
    | c :: rest => if b = c then [rest] else []
    | [] => []
  | .any, bs =>
    match bs with
    | c :: rest => if c = slash then [] else [rest]
    | [] => []
  | .star, bs => restsWhile (· != slash) bs
  | .anyLead, bs => bs :: restsAfterSlash bs
  | .anyTail, bs =>
    match bs with
    | c :: rest => if c = slash then restsWhile (fun _ => true) rest else []
    | [] => []
  | .anyInner, bs =>
    match bs with
    | c :: rest => if c = slash then rest :: restsAfterSlash rest else []
    | [] => []
  | .class negated ranges, bs =>
    match bs with
    | c :: rest => if ranges.any (fun r => r.lo ≤ c && c ≤ r.hi) != negated then [rest] else []
    | [] => []
  | .either alternatives, bs => restsOfSome alternatives bs

/-- What may be left of a list after tokens in sequence. -/
def restsOfAll : List PathToken → List UInt8 → List (List UInt8)
  | [], bs => [bs]
  | t :: ts, bs => (rests t bs).flatMap (restsOfAll ts)

/-- What may be left of a list after one of several sequences. -/
def restsOfSome : List (List PathToken) → List UInt8 → List (List UInt8)
  | [], _ => []
  | ts :: more, bs => restsOfAll ts bs ++ restsOfSome more bs

end

/-- Whether the bytes of a path fit the tokens. A lone `**` fits every path. -/
def fitAll (tokens : List PathToken) (bytes : List UInt8) : Bool :=
  match tokens with
  | [.anyLead] => true
  | _ => (restsOfAll tokens bytes).any (·.isEmpty)

/-! ## Reading patterns -/

/-- The bytes of a character. -/
def bytesOf (c : Char) : List UInt8 := (String.singleton c).toUTF8.data.toList

/-- The byte ranges of a class from one character to another. -/
def byteRanges (lo hi : Char) : List ByteRange :=
  if lo = hi then (bytesOf lo).map fun b => ⟨b, b⟩
  else
    let los := bytesOf lo
    let his := bytesOf hi
    (los.dropLast.map fun b => ⟨b, b⟩) ++ [⟨los.getLastD 0, his.headD 0⟩] ++
      (his.drop 1).map fun b => ⟨b, b⟩

/-- The inside of brackets up to the closing one. `done` holds the ranges read, the last one
first, and `waiting` says that a dash waits for the end of the last range. -/
def readClass? (first waiting : Bool) (done : List (Char × Char)) :
    List Char → Option (List (Char × Char) × List Char)
  | [] => none
  | c :: rest =>
    if c = ']' ∧ !first then
      some ((if waiting then ('-', '-') :: done else done).reverse, rest)
    else if c = '-' ∧ !first ∧ !waiting then readClass? false true done rest
    else if waiting then
      match done with
      | (lo, _) :: older => if c < lo then none else readClass? false false ((lo, c) :: older) rest
      | [] => none
    else readClass? false false ((c, c) :: done) rest

/-- What was read of a pattern: for each open brace the alternatives so far, the tokens of the
last one reversed. The innermost brace stands first, the pattern itself last. -/
abbrev Pending := List (List (List PathToken))

/-- A token put after those read. -/
def push (t : PathToken) : Pending → Pending
  | (ts :: alternatives) :: outer => ((t :: ts) :: alternatives) :: outer
  | [] :: outer => [[t]] :: outer
  | [] => [[[t]]]

/-- The last token read, and the others. -/
def pop? : Pending → Option (PathToken × Pending)
  | ((t :: ts) :: alternatives) :: outer => some (t, (ts :: alternatives) :: outer)
  | _ => none

/-- Whether the innermost alternative has tokens. -/
def hasTokens : Pending → Bool
  | ((_ :: _) :: _) :: _ => true
  | _ => false

/-- The alternatives that have tokens, in order. -/
def alternativesOf (reversed : List (List PathToken)) : List (List PathToken) :=
  (reversed.reverse.map List.reverse).filter (!·.isEmpty)

/-- What `**` adds after `previous`, and the rest. -/
def readDouble (previous : Option Char) (done : Pending) (rest : List Char) : Pending × List Char :=
  let twoStars := push .star (push .star done)
  let inBraces := 1 < done.length
  if !hasTokens done then
    match rest with
    | [] => (push .anyLead done, [])
    | '/' :: rest => (push .anyLead done, rest)
    | _ => (twoStars, rest)
  else if previous != some '/' && !(inBraces && (previous == some ',' || previous == some '{')) then
    (twoStars, rest)
  else
    let replace (t : PathToken) : Pending :=
      match pop? done with
      | some (.anyLead, done) => push .anyLead done
      | some (.anyTail, done) => push .anyTail done
      | some (_, done) => push t done
      | none => push t done
    match rest with
    | [] => (replace .anyTail, [])
    | '/' :: rest => (replace .anyInner, rest)
    | c :: _ => if inBraces && (c == ',' || c == '}') then (replace .anyTail, rest) else (twoStars, rest)

/-- The tokens spelled by the characters after `previous`. -/
def readTokens? (previous : Option Char) (done : Pending) :
    (fuel : Nat) → List Char → Option (List PathToken)
  | 0, _ => none
  | _ + 1, [] =>
    match done with
    | [[tokens]] => some tokens.reverse
    | [[]] => some []
    | _ => none
  | fuel + 1, c :: rest =>
    match c with
    | '?' => readTokens? (some c) (push .any done) fuel rest
    | '*' =>
      match rest with
      | '*' :: rest =>
        let (done, after) := readDouble previous done rest
        let last := if after.length < rest.length then '/' else '*'
        readTokens? (some last) done fuel after
      | _ => readTokens? (some c) (push .star done) fuel rest
    | '[' =>
      let (negated, inside) :=
        match rest with
        | '!' :: rest => (true, rest)
        | '^' :: rest => (true, rest)
        | _ => (false, rest)
      (readClass? true false [] inside).bind fun (ranges, after) =>
        let token := .class negated (ranges.flatMap fun r => byteRanges r.1 r.2)
        readTokens? (some ']') (push token done) fuel after
    | '{' => readTokens? (some c) ([[]] :: done) fuel rest
    | '}' =>
      match done with
      | inner :: outer :: more =>
        let alternatives := alternativesOf inner
        let done := if alternatives.isEmpty then outer :: more
          else push (.either alternatives) (outer :: more)
        readTokens? (some c) done fuel rest
      | _ => none
    | ',' =>
      match done with
      | inner :: outer :: more => readTokens? (some c) (([] :: inner) :: outer :: more) fuel rest
      | _ => readTokens? (some c) (push (.byte 44) done) fuel rest
    | '\\' =>
      match rest with
      | [] => none
      | d :: rest =>
        readTokens? (some d) ((bytesOf d).foldl (fun p b => push (.byte b) p) done) fuel rest
    | c => readTokens? (some c) ((bytesOf c).foldl (fun p b => push (.byte b) p) done) fuel rest

/-- The tokens of a pattern, if it is valid. -/
def parse? (pattern : List Char) : Option (List PathToken) :=
  readTokens? none [[[]]] (pattern.length + 1) pattern

end PathToken

/-- A rule of an ignore file. -/
structure IgnoreRule where
  tokens : List PathToken
  /-- Whether what fits is kept. -/
  keeps : Bool
  /-- Whether only directories are meant. -/
  directoriesOnly : Bool

/-- What ignore files say about a path. -/
inductive Verdict where
  | ignore
  | keep
  | silent
  deriving DecidableEq, Repr, Inhabited

/-- The first verdict unless it is silent. -/
def Verdict.or (a b : Verdict) : Verdict :=
  match a with
  | .silent => b
  | _ => a

namespace IgnoreRule

/-- Text without a slash at its end, nor a backslash before that slash; and whether there was
one. -/
def dropSlash (cs : List Char) : List Char × Bool :=
  match cs.reverse with
  | '/' :: '\\' :: rest => (rest.reverse, true)
  | '/' :: rest => (rest.reverse, true)
  | _ => (cs, false)

/-- The pattern of a rule that fits at any depth unless it is bound to the directory or has a
slash inside. -/
def deepen (bound : Bool) (cs : List Char) : List Char :=
  let deep := Text.leads "**/".toList cs || cs == "**".toList
  let cs := if bound || cs.contains '/' || deep then cs else "**/".toList ++ cs
  if Text.leads "**/".toList cs.reverse then cs ++ "/*".toList else cs

/-- The rule a line spells, if it spells one. -/
def ofLine? (line : String) : Option IgnoreRule :=
  if Text.startsWith line "#" then none
  else
    let line := if Text.endsWith line "\\ " then line else Text.trimRight line
    let (keeps, bound, cs) : Bool × Bool × List Char :=
      match line.toList with
      | '\\' :: '!' :: rest => (false, false, '!' :: rest)
      | '\\' :: '#' :: rest => (false, false, '#' :: rest)
      | '!' :: '/' :: rest => (true, true, rest)
      | '!' :: rest => (true, false, rest)
      | '/' :: rest => (false, true, rest)
      | cs => (false, false, cs)
    if line = "" then none
    else
      let (cs, directoriesOnly) := dropSlash cs
      (PathToken.parse? (deepen bound cs)).map fun tokens => ⟨tokens, keeps, directoriesOnly⟩

/-- The rules of an ignore file. -/
def ofText (text : String) : List IgnoreRule :=
  let text := (Text.stripLead? text "\ufeff").getD text
  (Text.lines text).filterMap ofLine?

/-- Whether a path below the directory of the file fits a rule. -/
def fits (r : IgnoreRule) (names : List String) (isDirectory : Bool) : Bool :=
  (!r.directoriesOnly || isDirectory) &&
    PathToken.fitAll r.tokens ("/".intercalate names).toUTF8.data.toList

/-- What rules say about a path below the directory of their file. -/
def verdict (rules : List IgnoreRule) (names : List String) (isDirectory : Bool) : Verdict :=
  match rules.reverse.find? fun r => r.fits names isDirectory with
  | some r => if r.keeps then .keep else .ignore
  | none => .silent

end IgnoreRule

end SourceIndex
