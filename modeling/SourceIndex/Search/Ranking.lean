set_option autoImplicit false

/-! # Rankings

A ranking lists ids with scores, the highest score first. Equal scores are in the order of
their ids, so that equal inputs give equal rankings. The scores are of any type with an order.
-/

namespace SourceIndex

/-- An entry of a ranking. -/
structure Ranked (σ : Type) where
  id : String
  score : σ
  deriving Repr, Inhabited, DecidableEq

namespace Ranked

variable {σ : Type}

/-- Whether a score and id come before others: higher scores first, then smaller ids. -/
def before [LT σ] [DecidableLT σ] (score : σ) (id : String)
    (score' : σ) (id' : String) : Bool :=
  if score' < score then true
  else if score < score' then false
  else decide (id ≤ id')

/-- Entries with higher scores first, ids in order among equal scores. -/
def ranking [LT σ] [DecidableLT σ] (entries : List (Ranked σ)) :
    List (Ranked σ) :=
  entries.mergeSort fun a b => before a.score a.id b.score b.id

end Ranked

end SourceIndex
