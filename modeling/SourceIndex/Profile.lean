import SourceIndex.Settings.Basic
import SourceIndex.Settings.Choice

set_option autoImplicit false

/-! # Profiles

The profile a build uses: the one asked for, or the one that fits the size of the project. Its
dimension never exceeds that of the embedding model.
-/

namespace SourceIndex

/-- A profile with every choice made. -/
structure Profile where
  /-- Medium or large. -/
  name : ProfileName
  params : Settings.ProfileParams
  /-- The dimension of the vectors. -/
  dimension : Nat
  deriving DecidableEq, Repr, Inhabited

namespace Profile

/-- The profile meant by a name in a project of the given size. -/
def nameFor (requested : ProfileName) (files bytes : Nat) (profiles : Settings.Profiles) :
    ProfileName :=
  match requested with
  | .auto =>
    if profiles.autoLargeFiles ≤ files ∨ profiles.autoLargeBytes ≤ bytes then .large else .medium
  | name => name

/-- The parameters of a profile. -/
def paramsOf (name : ProfileName) (profiles : Settings.Profiles) : Settings.ProfileParams :=
  match name with
  | .large => profiles.large
  | _ => profiles.medium

/-- The profile for a project of the given size and a model of dimension `native`. -/
def resolve (requested : ProfileName) (files bytes : Nat) (profiles : Settings.Profiles)
    (native : Nat) : Profile :=
  let name := nameFor requested files bytes profiles
  let params := paramsOf name profiles
  { name, params, dimension := min (params.dimension.getD native) native }

end Profile

end SourceIndex
