import SourceIndex.Embedding.Vector
import SourceIndex.Keyword.Rank
import SourceIndex.Store.Basic

set_option autoImplicit false

/-! # Searching a store

Both searches rank all chunks they can find, keep those of the language asked for, and cut the
ranking to the limit last.
-/

namespace SourceIndex

namespace Store

/-- Whether a chunk passes a language filter. -/
def passes (language : Option String) (c : Chunk) : Bool :=
  match language with
  | some id => c.language = id
  | none => true

/-! ## By vectors -/

/-- The similarity of a chunk to a query vector, measured on the leading coordinates of the
chunk's vector; a chunk without a vector or with a shorter one has none. -/
def similarity? (query : Embedding) (c : Chunk) : Option (Ranked Float) :=
  c.embedding.bind fun v =>
    if v.length < query.length then none
    else some ⟨c.id, Embedding.cosine query (v.take query.length)⟩

/-- The chunks most similar to a vector. -/
def vectorSearch (s : Store) (query : Embedding) (language : Option String) (limit : Nat) :
    List (Ranked Float) :=
  (Ranked.ranking ((s.chunks.filter (passes language)).filterMap (similarity? query))).take limit

/-- How many chunks that pass the filter have no vector. -/
def countUnembedded (s : Store) (language : Option String) : Nat :=
  s.chunks.countP fun c => passes language c && c.embedding.isNone

/-! ## By words -/

/-- The columns of a chunk with their weights. -/
def columns (c : Chunk) : List Keyword.Column :=
  [⟨10, Keyword.tokens (c.name.getD "")⟩, ⟨5, Keyword.tokens (c.signature.getD "")⟩,
    ⟨3, Keyword.tokens c.fullPath⟩, ⟨1, Keyword.tokens (c.docstring.getD "")⟩,
    ⟨1, Keyword.tokens c.content⟩]

/-- A chunk as a document of the word index. -/
def document (c : Chunk) : Keyword.Document := ⟨c.id, c.language, columns c⟩

/-- Whether a document passes a language filter. -/
def passesDocument (language : Option String) (d : Keyword.Document) : Bool :=
  match language with
  | some id => d.language = id
  | none => true

/-- The chunks that have most of a query's words. -/
def keywordSearch (s : Store) (query : String) (language : Option String) (limit : Nat) :
    List (Ranked Float) :=
  let found := (Keyword.scored (s.chunks.map document) query).filter fun d =>
    passesDocument language d.1
  (Ranked.ranking (found.map fun (d, x) => ⟨d.id, x⟩)).take limit

end Store

end SourceIndex
