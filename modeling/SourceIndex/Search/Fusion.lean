import SourceIndex.Search.Ranking

set_option autoImplicit false

/-! # Rank fusion

Two rankings of the same things, one by vectors and one by words, are fused by position: a
thing at position `p` of a list gets the share `1 / (k + p)`, and shares add up. Scores of
different kinds are never compared.

The scores are of any ordered type with an addition: a search fuses doubles, and exact numbers
obey the same definitions.

* `Fusion.fuse`: the hits of two rankings, best first.
* `Fusion.single`: one ranking in the same form, with its own scores.
-/

namespace SourceIndex

/-- An entry of a fused ranking: where the two rankings have it, and with which score. -/
structure FusedHit (σ : Type) where
  id : String
  score : σ
  /-- The position in the ranking by vectors, counted from one. -/
  vectorRank : Option Nat
  /-- The position in the ranking by words. -/
  keywordRank : Option Nat
  vectorScore : Option σ
  keywordScore : Option σ
  deriving Repr, Inhabited, DecidableEq

/-- Which of the two rankings. -/
inductive RankingSide where
  | vector
  | keyword
  deriving DecidableEq, Repr

namespace FusedHit

variable {σ : Type}

/-- A hit that neither ranking has. -/
def unranked (score : σ) (id : String) : FusedHit σ :=
  ⟨id, score, none, none, none, none⟩

/-- A hit with the position and the score it has in one of the rankings. -/
def place (hit : FusedHit σ) (side : RankingSide) (rank : Nat) (score : σ) : FusedHit σ :=
  match side with
  | .vector => { hit with vectorRank := some rank, vectorScore := some score }
  | .keyword => { hit with keywordRank := some rank, keywordScore := some score }

/-- A hit with a share added to its score. -/
def add [Add σ] (hit : FusedHit σ) (share : σ) : FusedHit σ :=
  { hit with score := hit.score + share }

end FusedHit

namespace Fusion

variable {σ : Type}

/-! ## Collecting -/

/-- Hits with one changed, which is added if it is missing. -/
def update (id : String) (fresh : FusedHit σ) (change : FusedHit σ → FusedHit σ) :
    List (FusedHit σ) → List (FusedHit σ)
  | [] => [change fresh]
  | hit :: rest => if hit.id = id then change hit :: rest else hit :: update id fresh change rest

/-- Hits with the entries of a ranking added, the first of which has the position `rank`. -/
def collect [Add σ] (zero : σ) (share : Nat → σ) (side : RankingSide) :
    (rank : Nat) → List (Ranked σ) → List (FusedHit σ) → List (FusedHit σ)
  | _, [], hits => hits
  | rank, entry :: rest, hits =>
    collect zero share side (rank + 1) rest
      (update entry.id (.unranked zero entry.id)
        (fun hit => (hit.add (share rank)).place side rank entry.score) hits)

/-- The hits of two rankings in the order of their appearance. -/
def hits [Add σ] (zero : σ) (share : Nat → σ) (vector keyword : List (Ranked σ)) :
    List (FusedHit σ) :=
  collect zero share .keyword 1 keyword (collect zero share .vector 1 vector [])

/-- The hits of two rankings, best first. -/
def fuseWith [Add σ] [LT σ] [DecidableLT σ] (zero : σ) (share : Nat → σ)
    (vector keyword : List (Ranked σ)) : List (FusedHit σ) :=
  (hits zero share vector keyword).mergeSort fun a b => Ranked.before a.score a.id b.score b.id

/-- The share of a position, in doubles. -/
def share (k rank : Nat) : Float := 1 / (Float.ofNat k + Float.ofNat rank)

/-- The hits of two rankings with doubles as scores. -/
def fuse (k : Nat) (vector keyword : List (Ranked Float)) : List (FusedHit Float) :=
  fuseWith 0 (share k) vector keyword

/-- One ranking as hits that keep their scores. -/
def single (side : RankingSide) (entries : List (Ranked Float)) : List (FusedHit Float) :=
  entries.mapIdx fun i entry =>
    (FusedHit.unranked entry.score entry.id).place side (i + 1) entry.score

end Fusion

end SourceIndex
