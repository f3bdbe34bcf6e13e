import SourceIndex.Text.Basic
import SourceIndex.Text.Letter

set_option autoImplicit false

/-! # Words of a query

A query is free text. Its terms are its words without all characters but letters, digits and
underscores; words with none of these are left out. The match text quotes each term, so that
nothing in the query acts as an operator.
-/

namespace SourceIndex

namespace Keyword

/-- Whether a character may be part of a term. -/
def isTermChar (c : Char) : Bool := Text.isLetterOrDigit c || c == '_'

/-- The terms of a query, in order. -/
def terms (query : String) : List String :=
  ((Text.words query).map fun word => String.ofList (word.toList.filter isTermChar)).filter
    (!·.isEmpty)

/-- The terms in quotes, any of which may match. -/
def matchText (query : String) : String :=
  " OR ".intercalate ((terms query).map fun term => "\"" ++ term ++ "\"")

/-- Whether there is anything to search for. -/
def hasTerms (query : String) : Bool := !(terms query).isEmpty

end Keyword

end SourceIndex
