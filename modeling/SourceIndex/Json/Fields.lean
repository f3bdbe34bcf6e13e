import SourceIndex.Json.Basic

set_option autoImplicit false

/-! # Taking JSON values apart

Views of a value as what it is expected to be, and of the fields of an object. A field that is
null counts as absent.
-/

namespace SourceIndex

namespace Json

/-! ## Values -/

/-- The text of a string. -/
def string? : Json → Option String
  | .str s => some s
  | _ => none

/-- A whole number from zero on. -/
def natural? : Json → Option Nat
  | .int n => if n < 0 then none else some n.toNat
  | _ => none

/-- A truth value. -/
def truth? : Json → Option Bool
  | .bool b => some b
  | _ => none

/-- The items of a list. -/
def items? : Json → Option (List Json)
  | .arr items => some items
  | _ => none

/-! ## Fields -/

/-- The value of a field that is there and not null. -/
def given? (j : Json) (name : String) : Option Json :=
  match j.field? name with
  | some .null | none => none
  | some v => some v

/-- The text in a field. -/
def stringAt? (j : Json) (name : String) : Option String := (j.given? name).bind string?

/-- The number in a field. -/
def naturalAt? (j : Json) (name : String) : Option Nat := (j.given? name).bind natural?

/-- The truth value in a field. -/
def truthAt? (j : Json) (name : String) : Option Bool := (j.given? name).bind truth?

/-- The items in a field. -/
def itemsAt? (j : Json) (name : String) : Option (List Json) := (j.given? name).bind items?

/-- The texts in a field, if all its items are texts. -/
def stringsAt? (j : Json) (name : String) : Option (List String) :=
  (j.itemsAt? name).bind fun items => items.mapM string?

/-! ## Objects -/

/-- The fields of an object. -/
def fields : Json → List (String × Json)
  | .obj fields => fields
  | _ => []

/-- An object without the fields of some names. -/
def without (names : List String) (j : Json) : Json :=
  .obj (j.fields.filter fun f => !names.contains f.1)

/-- A list of texts. -/
def strings (texts : List String) : Json := .arr (texts.map .str)

/-- A number from zero on. -/
def natural (n : Nat) : Json := .int n

/-- A field that is left out for an absent value. -/
def optional {α : Type} (name : String) (encode : α → Json) (value : Option α) :
    List (String × Json) :=
  (value.map fun a => (name, encode a)).toList

end Json

end SourceIndex
