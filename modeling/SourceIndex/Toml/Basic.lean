set_option autoImplicit false

/-! # TOML values and tables

A document is a table: keys with values, tables and lists of tables. A table remembers how it
came about, since that decides how it may grow: a header makes it explicit, the path of a
deeper header or a dotted key makes it implicitly, and only dotted keys may add to a table
that dotted keys made.

* `Toml.insert?`: a key and value put into a table.
* `Toml.openTable?`, `Toml.openElement?`: what a header does.
-/

namespace SourceIndex

/-- How a table came about. -/
inductive TableOrigin where
  /-- By its own header, or as the value of a key. -/
  | explicit
  /-- By the header of a table inside it. -/
  | path
  /-- By a dotted key. -/
  | dotted
  deriving DecidableEq, Repr, Inhabited

/-- What a key of a document holds. -/
inductive Toml where
  | str (s : String)
  | int (n : Int)
  | real (x : Float)
  | bool (b : Bool)
  /-- A date, a time or both; its parts are not kept. -/
  | moment
  | array (items : List Toml)
  /-- A table written as a value. -/
  | inline (origin : TableOrigin) (fields : List (String × Toml))
  | table (origin : TableOrigin) (fields : List (String × Toml))
  /-- Tables under one header each, the last one first. -/
  | tables (elements : List (List (String × Toml)))
  deriving Inhabited

namespace Toml

/-- The fields of a table. -/
abbrev Fields := List (String × Toml)

/-- What a key holds. -/
def find? (fields : Fields) (key : String) : Option Toml :=
  (fields.find? (·.1 == key)).map (·.2)

/-- The fields with a key set, in place if it is there, otherwise at the end. -/
def set (fields : Fields) (key : String) (v : Toml) : Fields :=
  if fields.any (·.1 == key) then fields.map fun f => if f.1 == key then (key, v) else f
  else fields ++ [(key, v)]

/-- A table with a value put at a dotted key. A key that
is there, a table that was not made by dotted keys, and a value on the way refuse it. `inside`
says whether the table is written as a value. -/
def insert? (inside : Bool) (fields : Fields) (v : Toml) :
    (path : List String) → Option Fields
  | [] => none
  | [key] =>
    if (find? fields key).isSome then none
    else some (set fields key v)
  | key :: rest =>
    let wrap (o : TableOrigin) (fs : Fields) : Toml := if inside then .inline o fs else .table o fs
    match find? fields key with
    | none => (insert? inside [] v rest).map fun fs => set fields key (wrap .dotted fs)
    | some (.table .dotted fs) =>
      if inside then none
      else (insert? inside fs v rest).map fun fs => set fields key (wrap .dotted fs)
    | some (.table .path fs) =>
      if inside || rest.length < 2 then none
      else (insert? inside fs v rest).map fun fs => set fields key (wrap .path fs)
    | some (.inline .dotted fs) =>
      if inside then
        (insert? inside fs v rest).map fun fs => set fields key (wrap .dotted fs)
      else none
    | some (.tables (fs :: older)) =>
      if inside || rest.length < 2 then none
      else
        (insert? inside fs v rest).map fun fs => set fields key (.tables (fs :: older))
    | some _ => none

/-- The table with `change` applied to the table that a header's path leads to. Tables on the
way are made where they are missing; of a list of tables the last one is meant. -/
def within? (change : Fields → Option Fields) (fields : Fields) : (path : List String) → Option Fields
  | [] => change fields
  | key :: rest =>
    match find? fields key with
    | none => (within? change [] rest).map fun fs => set fields key (.table .path fs)
    | some (.table o fs) => (within? change fs rest).map fun fs => set fields key (.table o fs)
    | some (.tables (fs :: older)) =>
      (within? change fs rest).map fun fs => set fields key (.tables (fs :: older))
    | some _ => none

/-- The document with the table of a header opened; one that a header opened before is
refused. -/
def openTable? (fields : Fields) (path : List String) : Option Fields :=
  match path.getLast? with
  | none => none
  | some key =>
    within? (fun fs =>
      match find? fs key with
      | none => some (set fs key (.table .explicit []))
      | some (.table .path inner) => some (set fs key (.table .explicit inner))
      | some _ => none) fields path.dropLast

/-- The document with another table in the list of a header. -/
def openElement? (fields : Fields) (path : List String) : Option Fields :=
  match path.getLast? with
  | none => none
  | some key =>
    within? (fun fs =>
      match find? fs key with
      | none => some (set fs key (.tables [[]]))
      | some (.tables elements) => some (set fs key (.tables ([] :: elements)))
      | some _ => none) fields path.dropLast

end Toml

end SourceIndex
