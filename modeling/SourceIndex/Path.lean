import SourceIndex.Text.Basic

set_option autoImplicit false

/-! # Paths

A path is a text with `/` between its parts. Empty pieces and inner `.` pieces mean nothing,
so two spellings may have the same parts; the order of paths and the test whether one lies
under another look at the parts alone.

* `Path.parts`: what a path says.
* `Path.fileName?`, `Path.stem?`, `Path.extension?`: its last part.
* `Path.join`, `Path.below?`: one path after another.
* `Path.order`, `Path.le`, `Path.same`: the order by parts.
-/

namespace SourceIndex

/-- A part of a path. -/
inductive Part where
  /-- The leading `/`. -/
  | root
  /-- A leading `.`. -/
  | here
  /-- A `..`. -/
  | up
  /-- Any other part. -/
  | name (s : String)
  deriving DecidableEq, Repr, Inhabited

/-- A path as it is spelled. -/
structure Path where
  text : String
  deriving DecidableEq, Repr, Inhabited, Hashable

namespace Path

/-! ## Parts -/

/-- The part spelled by a piece between slashes; `first` holds for the first piece of a
relative path, the only one at which `.` is a part. -/
def partOf (first : Bool) (piece : String) : Option Part :=
  if piece = "" then none
  else if piece = "." then if first then some .here else none
  else if piece = ".." then some .up
  else some (.name piece)

/-- Whether a path begins with `/`. -/
def isAbsolute (p : Path) : Bool := Text.startsWith p.text "/"

/-- The parts of a path. -/
def parts (p : Path) : List Part :=
  match Text.split (· == '/') p.text with
  | [] => []
  | first :: rest =>
    let tail := rest.filterMap (partOf false)
    if p.isAbsolute then .root :: tail
    else (partOf true first).toList ++ tail

/-- The names among the parts of a path. -/
def names (p : Path) : List String :=
  p.parts.filterMap fun
    | .name s => some s
    | _ => none

/-- Whether all parts of a path are names. -/
def isPlain (p : Path) : Bool :=
  p.parts.all fun
    | .name _ => true
    | _ => false

/-- The last part of a path, if it is a name. -/
def fileName? (p : Path) : Option String :=
  match p.parts.getLast? with
  | some (.name s) => some s
  | _ => none

/-- A file name cut at its last dot; a name whose only dot is its first character is not
cut. -/
def cutName (name : String) : String × Option String :=
  let pieces := Text.split (· == '.') name
  match pieces.getLast? with
  | none => (name, none)
  | some ext =>
    let stem := ".".intercalate pieces.dropLast
    if stem = "" then (name, none) else (stem, some ext)

/-- The last name of a path without its extension. -/
def stem? (p : Path) : Option String :=
  p.fileName?.map fun name => (cutName name).1

/-- What follows the last dot of a path's last name. -/
def extension? (p : Path) : Option String :=
  p.fileName?.bind fun name => (cutName name).2

/-! ## One path after another -/

/-- The path `q` taken from `p`; an absolute `q` stands for itself. -/
def join (p q : Path) : Path :=
  if q.isAbsolute then q
  else if p.text = "" || Text.endsWith p.text "/" then ⟨p.text ++ q.text⟩
  else ⟨p.text ++ "/" ++ q.text⟩

/-- The parts of `p` after those of `lead`, if it begins with them. -/
def partsAfter? : (lead parts : List Part) → Option (List Part)
  | [], ps => some ps
  | _ :: _, [] => none
  | a :: lead, b :: ps => if a = b then partsAfter? lead ps else none

/-- Whether `p` is `lead` or lies under it. -/
def isUnder (p lead : Path) : Bool := (partsAfter? lead.parts p.parts).isSome

/-- Whether a piece between slashes says nothing. -/
def isIdle (piece : String) : Bool := piece == "" || piece == "."

/-- The pieces after the first `count` that say something. -/
def dropPieces : Nat → List String → List String
  | 0, ps => ps
  | _ + 1, [] => []
  | n + 1, p :: ps => if isIdle p then dropPieces (n + 1) ps else dropPieces n ps

/-- What an absolute path says after an absolute `lead`, in its own spelling, if it lies under
it. -/
def below? (p lead : Path) : Option Path :=
  (partsAfter? lead.parts p.parts).map fun _ =>
    let rest := dropPieces (lead.parts.length - 1) (Text.split (· == '/') p.text)
    let rest := (rest.dropWhile isIdle).reverse
    ⟨"/".intercalate (rest.dropWhile isIdle).reverse⟩

/-- The text of a part. -/
def partText : Part → String
  | .root => ""
  | .here => "."
  | .up => ".."
  | .name s => s

/-- The path with the given parts, spelled with single slashes. -/
def ofParts (ps : List Part) : Path :=
  match ps with
  | [.root] => ⟨"/"⟩
  | ps => ⟨"/".intercalate (ps.map partText)⟩

/-! ## Order -/

/-- The place of a part's kind in the order of parts. -/
def partRank : Part → Nat
  | .root => 0
  | .here => 1
  | .up => 2
  | .name _ => 3

/-- The order of parts: by kind, names among themselves by their characters. -/
def comparePart : Part → Part → Ordering
  | .name s, .name t => compare s t
  | a, b => compare (partRank a) (partRank b)

/-- The lexicographic order of lists of parts. -/
def compareParts : List Part → List Part → Ordering
  | [], [] => .eq
  | [], _ :: _ => .lt
  | _ :: _, [] => .gt
  | a :: as, b :: bs => (comparePart a b).then (compareParts as bs)

/-- The order of paths. -/
def order (p q : Path) : Ordering := compareParts p.parts q.parts

/-- Whether `p` comes no later than `q` in the order of paths. -/
def le (p q : Path) : Bool := (order p q).isLE

/-- Whether two paths have the same parts. -/
def same (p q : Path) : Bool := p.parts == q.parts

end Path

end SourceIndex
