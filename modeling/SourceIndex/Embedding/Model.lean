import SourceIndex.Embedding.Vector
import SourceIndex.Fault

set_option autoImplicit false

/-! # Embedding models

A model turns texts into vectors. It is asked for many texts in batches; a batch whose reply is
a failure, or has not one vector for each text, leaves its texts without vectors and does not
disturb the others. Vectors are cut to the dimension wanted, and one that is too short counts as
none.

* `EmbeddingModel.embedTexts`: a vector for each text, where there is one.
* `EmbeddingModel.embedQuery`: the vector of a query.
-/

namespace SourceIndex

/-- What comes of asking a model. -/
inductive Reply (α : Type) where
  | answer (a : α)
  | failure (f : Fault)
  /-- Nothing comes before the one who asks gives up. -/
  | silence

/-- A model that makes vectors. -/
structure EmbeddingModel where
  name : String
  /-- The dimension of the vectors it makes. -/
  dimension : Nat
  /-- Asks for the vectors of texts that are to be found. -/
  documents : List String → Reply (List Embedding)
  /-- Asks for the vector of a query. -/
  query : String → Reply Embedding

namespace EmbeddingModel

/-! ## Batches -/

/-- A list cut into batches of `size`, the last of which may be shorter; a size of zero counts
as one. -/
def batches {α : Type} (size : Nat) : List α → List (List α)
  | [] => []
  | a :: rest => (a :: rest.take (size - 1)) :: batches size (rest.drop (size - 1))
termination_by items => items.length
decreasing_by
  simp only [List.length_drop, List.length_cons]
  omega

/-- What came of a batch. -/
structure BatchResult where
  /-- The place of the first text. -/
  offset : Nat
  /-- How many texts were sent. -/
  size : Nat
  reply : Reply (List Embedding)

/-- Slots with vectors written from a place on. -/
def write (dimension : Nat) (slots : List (Option Embedding)) (offset : Nat)
    (vectors : List Embedding) : List (Option Embedding) :=
  slots.take offset ++ vectors.map (Embedding.fit? dimension) ++
    slots.drop (offset + vectors.length)

/-- Slots with the vectors of a batch, if it has one for each text. -/
def fill (dimension : Nat) (slots : List (Option Embedding)) (r : BatchResult) :
    List (Option Embedding) :=
  match r.reply with
  | .answer vectors =>
    if vectors.length = r.size then write dimension slots r.offset vectors else slots
  | .failure _ | .silence => slots

/-- The batches of texts, each with its reply. -/
def ask (m : EmbeddingModel) (batchSize : Nat) (texts : List String) : List BatchResult :=
  (batches batchSize texts).mapIdx fun i batch =>
    ⟨i * max 1 batchSize, batch.length, m.documents batch⟩

/-- Whether a batch is never answered. -/
def BatchResult.isSilent (r : BatchResult) : Bool :=
  match r.reply with
  | .silence => true
  | .answer _ | .failure _ => false

/-- The slots of `count` texts with what came of the batches. -/
def collect (dimension count : Nat) (results : List BatchResult) : List (Option Embedding) :=
  results.foldl (fill dimension) (List.replicate count none)

/-- The vector of each text at a dimension; nothing if a batch is never answered. -/
def embedTexts (m : EmbeddingModel) (dimension batchSize : Nat) (texts : List String) :
    Option (List (Option Embedding)) :=
  let results := m.ask batchSize texts
  if results.any BatchResult.isSilent then none
  else some (collect (min dimension m.dimension) texts.length results)

/-! ## Queries -/

/-- The vector of a query at a dimension. -/
def embedQuery (m : EmbeddingModel) (dimension : Nat) (text : String) : Reply Embedding :=
  let dimension := min dimension m.dimension
  match m.query text with
  | .silence => .silence
  | .failure f => .failure f
  | .answer v =>
    match Embedding.fit? dimension v with
    | some w => .answer w
    | none => .failure (.embedding ("query vector has " ++ toString v.length ++
        " dimensions, expected at least " ++ toString dimension))

end EmbeddingModel

end SourceIndex
