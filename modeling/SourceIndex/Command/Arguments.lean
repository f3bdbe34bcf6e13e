import SourceIndex.Text.Basic

set_option autoImplicit false

/-! # Arguments of a program

Arguments are read from left to right by the rules of a command. An option is written
`--name value` or `--name=value`, a flag `--name` or `-n`; several flag letters may share one
dash. After `--` everything is an operand. The name of a further command ends the arguments of
this one.

A value is looked at when the next option, flag or operand comes, or at the end. So help that is
asked for counts only if everything before it was in order.

* `Arguments.scan`: the arguments of one command.
* `Arguments.settle`: the last value is looked at.
-/

namespace SourceIndex

/-- An option or flag of a command. -/
structure OptionRule where
  name : String
  /-- The letter of a flag. -/
  letter : Option Char := none
  /-- Which values are accepted; a flag takes none. -/
  accepts : Option (String → Bool) := none
  /-- Whether the option may be given more than once. -/
  repeats : Bool := false

/-- What a command can be given. -/
structure CommandRule where
  options : List OptionRule
  /-- How many operands there may be. -/
  operands : Nat := 0
  /-- The names of further commands. -/
  commands : List String := []
  /-- Whether the version can be asked for. -/
  hasVersion : Bool := false

/-- Why arguments lead to no command. -/
inductive ArgumentStop where
  /-- Help was asked for. -/
  | help
  /-- The version was asked for. -/
  | version
  /-- The arguments are wrong. -/
  | misuse
  deriving DecidableEq, Repr, Inhabited

/-- The arguments of a command that were read so far. -/
structure Arguments where
  /-- Options with their values and flags without, the last one first. -/
  given : List (String × Option String) := []
  /-- The option that was read last: its value may still be to come, and is not looked at
  yet. -/
  pending : Option (OptionRule × Option String) := none
  /-- The operands, the last one first. -/
  operands : List String := []

namespace Arguments

/-! ## Options -/

/-- Notes an option or flag, unless it was given before and may not be repeated. -/
def note (a : Arguments) (rule : OptionRule) (value : Option String) :
    Except ArgumentStop Arguments :=
  if !rule.repeats && a.given.any (·.1 == rule.name) then .error .misuse
  else .ok { a with given := (rule.name, value) :: a.given }

/-- Looks at the value that was read last. -/
def settle (a : Arguments) : Except ArgumentStop Arguments :=
  match a.pending with
  | none => .ok a
  | some (_, none) => .error .misuse
  | some (rule, some value) =>
    match rule.accepts with
    | some accepts =>
      if accepts value then { a with pending := none }.note rule (some value)
      else .error .misuse
    | none => .error .misuse

/-- Whether an option waits for its value. -/
def isWaiting (a : Arguments) : Bool :=
  match a.pending with
  | some (_, none) => true
  | _ => false

/-- A name and the value attached to it by an equals sign. -/
def cutValue (text : List Char) : String × Option String :=
  match Text.cutAt? ['='] text with
  | some (name, value) => (String.ofList name, some (String.ofList value))
  | none => (String.ofList text, none)

/-- The arguments after a word that begins with two dashes, which are left out of `text`. -/
def long (c : CommandRule) (a : Arguments) (text : List Char) :
    Except ArgumentStop Arguments :=
  let (name, value) := cutValue text
  match c.options.find? (·.name == name) with
  | some rule =>
    match rule.accepts, value with
    | some _, some value => do
      let a ← a.settle
      { a with pending := some (rule, some value) }.settle
    | some _, none => do
      let a ← a.settle
      return { a with pending := some (rule, none) }
    | none, some _ => .error .misuse
    | none, none => do (← a.settle).note rule none
  | none =>
    if value.isSome then .error .misuse
    else if name = "help" then do
      let _ ← a.settle
      .error .help
    else if name = "version" ∧ c.hasVersion then do
      let _ ← a.settle
      .error .version
    else .error .misuse

/-- The arguments after flag letters. -/
def letters (c : CommandRule) (a : Arguments) : List Char → Except ArgumentStop Arguments
  | [] => .ok a
  | l :: rest =>
    match c.options.find? fun rule => rule.letter == some l && rule.accepts.isNone with
    | some rule => do letters c (← (← a.settle).note rule none) rest
    | none =>
      if l = 'h' then do
        let _ ← a.settle
        .error .help
      else if l = 'V' ∧ c.hasVersion then do
        let _ ← a.settle
        .error .version
      else .error .misuse

/-! ## Operands and commands -/

/-- The arguments after an operand. -/
def operand (c : CommandRule) (a : Arguments) (word : String) : Except ArgumentStop Arguments :=
  if a.operands.length < c.operands then do
    let a ← a.settle
    return { a with operands := word :: a.operands }
  else .error .misuse

/-- What the words after the command `help` lead to: help on one command at most. -/
def helpOn (commands : List String) (words : List String) : ArgumentStop :=
  match words with
  | [] => .help
  | [name] => if name = "help" ∨ commands.contains name then .help else .misuse
  | _ => .misuse

/-- The arguments of a command, and the further command with the words after it. -/
def scan (c : CommandRule) (a : Arguments) :
    List String → Except ArgumentStop (Arguments × Option (String × List String))
  | [] => .ok (a, none)
  | word :: rest =>
    match word.toList with
    | ['-', '-'] => do
      let a ← rest.foldlM (operand c) a
      return (a, none)
    | '-' :: '-' :: text => do scan c (← a.long c text) rest
    | '-' :: l :: text => do scan c (← a.letters c (l :: text)) rest
    | _ =>
      if a.isWaiting then
        scan c { a with pending := a.pending.map fun p => (p.1, some word) } rest
      else if c.commands.contains word then .ok (a, some (word, rest))
      else if word = "help" ∧ !c.commands.isEmpty then .error (helpOn c.commands rest)
      else do scan c (← a.operand c word) rest

/-! ## Values -/

/-- The value that an option was given. -/
def value? (a : Arguments) (name : String) : Option String :=
  (a.given.find? (·.1 == name)).bind (·.2)

/-- The values that an option was given, in order. -/
def values (a : Arguments) (name : String) : List String :=
  (a.given.filter (·.1 == name)).reverse.filterMap (·.2)

/-- Whether a flag was given. -/
def has (a : Arguments) (name : String) : Bool := a.given.any (·.1 == name)

end Arguments

end SourceIndex
