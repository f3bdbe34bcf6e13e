import SourceIndex.Chunk.Basic

set_option autoImplicit false

/-! # Vectors

An embedding is a list of single-precision numbers. Cutting keeps its leading coordinates and
brings them back to unit length; similarity is the cosine of the angle between two vectors of
one length, in double precision. All sums run from the left.
-/

namespace SourceIndex

namespace Embedding

/-- The sum of the squares of the coordinates. -/
def squares (v : Embedding) : Float32 :=
  v.foldl (fun sum x => sum + x * x) 0

/-- The coordinates divided by the length of the vector, which is left alone if it has none. -/
def normalize (v : Embedding) : Embedding :=
  let norm := (squares v).sqrt
  if 0 < norm then v.map (· / norm) else v

/-- The first `dimension` coordinates, brought to unit length. -/
def cut (dimension : Nat) (v : Embedding) : Embedding :=
  normalize (v.take dimension)

/-- A vector of `dimension` coordinates made from one that has at least as many. -/
def fit? (dimension : Nat) (v : Embedding) : Option Embedding :=
  if v.length < dimension then none else some (cut dimension v)

/-- What a pair of coordinates adds to the product and to the squares of two vectors. -/
def addPair (sums : Float × Float × Float) (pair : Float32 × Float32) : Float × Float × Float :=
  let x := pair.1.toFloat
  let y := pair.2.toFloat
  (sums.1 + x * y, sums.2.1 + x * x, sums.2.2 + y * y)

/-- The cosine of the angle between two vectors; zero if their lengths differ or one of them is
empty or zero. -/
def cosine (v w : Embedding) : Float :=
  if v.length = w.length ∧ v ≠ [] then
    let (product, left, right) := (v.zip w).foldl addPair (0, 0, 0)
    let norm := left.sqrt * right.sqrt
    if norm == 0 then 0 else product / norm
  else 0

/-! ## Lengths -/

theorem length_normalize (v : Embedding) : (normalize v).length = v.length := by
  simp only [normalize]
  split <;> simp

theorem length_cut (dimension : Nat) (v : Embedding) :
    (cut dimension v).length = min dimension v.length := by
  simp [cut, length_normalize]

/-- A fitted vector has the length asked for. -/
theorem length_of_fit? {dimension : Nat} {v w : Embedding} (h : fit? dimension v = some w) :
    w.length = dimension := by
  unfold fit? at h
  split at h
  · cases h
  · cases h
    rw [length_cut]
    omega

end Embedding

end SourceIndex
