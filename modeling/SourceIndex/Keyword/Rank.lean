import SourceIndex.Keyword.Fold
import SourceIndex.Keyword.Query
import SourceIndex.Search.Ranking

set_option autoImplicit false

/-! # Ranking by words

A document is a row of weighted columns of tokens. The terms of a query are phrases: the tokens
of a term have to stand next to each other in one column. Every phrase that a document has adds
to its score: the more for being rare among all documents, for occurring often and in heavy
columns, and for standing in a short document.

* `Keyword.tokens`: the folded words of a text.
* `Keyword.score`: the score of a document among others.
-/

namespace SourceIndex

namespace Keyword

/-! ## Tokens -/

/-- A folded word. -/
abbrev Token := List Char

/-- The tokens of a text: runs of word characters and marks, the marks dropped and the rest
folded. -/
def tokens (text : String) : List Token :=
  ((Text.pieces (fun c => !(isWordChar c || isMark c)) text.toList).map fun piece =>
    (piece.filter fun c => !isMark c).map fold).filter (!·.isEmpty)

/-- A phrase: tokens that have to be neighbours. -/
abbrev Phrase := List Token

/-- The phrases of a query, one for each term. -/
def phrases (query : String) : List Phrase := (terms query).map tokens

/-- How often a phrase occurs in a list of tokens; one without tokens occurs nowhere. -/
def occurrences (phrase : Phrase) : List Token → Nat
  | [] => 0
  | t :: rest =>
    (if !phrase.isEmpty && phrase.isPrefixOf (t :: rest) then 1 else 0) + occurrences phrase rest

/-! ## Documents -/

/-- The sum of some numbers. -/
def total (ns : List Nat) : Nat := ns.foldl (· + ·) 0

/-- The tokens of a column and the weight of an occurrence in it. -/
structure Column where
  weight : Nat
  tokens : List Token

/-- A document with the id it is found by. -/
structure Document where
  id : String
  language : String
  columns : List Column

namespace Document

/-- How many tokens a document has. -/
def length (d : Document) : Nat := total (d.columns.map fun c => c.tokens.length)

/-- The weight of all occurrences of a phrase. -/
def frequency (d : Document) (phrase : Phrase) : Nat :=
  total (d.columns.map fun c => c.weight * occurrences phrase c.tokens)

/-- Whether a document has one of the phrases. -/
def hasAny (d : Document) (ps : List Phrase) : Bool :=
  ps.any fun p => d.columns.any fun c => 0 < occurrences p c.tokens

end Document

/-! ## Scores -/

/-- How much a phrase counts that `having` of `total` documents have; at least a little. -/
def rarity (total having : Nat) : Float :=
  let x := Float.log
    ((Float.ofNat total - Float.ofNat having + 0.5) / (Float.ofNat having + 0.5))
  if x ≤ 0 then 1e-6 else x

/-- How much frequency and length of a document count: repetition levels off, and long documents
count less. -/
def saturation (frequency length averageLength : Float) : Float :=
  frequency * (1.2 + 1.0) / (frequency + 1.2 * (1 - 0.75 + 0.75 * length / averageLength))

/-- The mean length of documents. -/
def averageLength (ds : List Document) : Float :=
  Float.ofNat (total (ds.map Document.length)) / Float.ofNat ds.length

/-- Phrases with their rarity among documents. -/
def weigh (ds : List Document) (ps : List Phrase) : List (Phrase × Float) :=
  ps.map fun p => (p, rarity ds.length (ds.countP fun d => d.hasAny [p]))

/-- The score of a document. -/
def score (average : Float) (weighed : List (Phrase × Float)) (d : Document) : Float :=
  weighed.foldl
    (fun sum (p, rare) =>
      sum + rare * saturation (Float.ofNat (d.frequency p)) (Float.ofNat d.length) average)
    0

/-- The documents that have a term of the query, with their scores among all documents. -/
def scored (ds : List Document) (query : String) : List (Document × Float) :=
  let ps := phrases query
  let average := averageLength ds
  let weighed := weigh ds ps
  (ds.filter (·.hasAny ps)).map fun d => (d, score average weighed d)

end Keyword

end SourceIndex
