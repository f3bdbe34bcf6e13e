import SourceIndex.Command.Arguments
import SourceIndex.Generation.Directory
import SourceIndex.Path
import SourceIndex.Settings.Choice

set_option autoImplicit false

/-! # Invocations

What a user asks the program for: a command with its options, and the options that go with
every command. The latter may stand before or after the name of the command; after it they
count more.

* `Invocation.read`: the invocation that arguments spell.
-/

namespace SourceIndex

/-- The options of a search. -/
structure SearchOptions where
  query : String
  mode : SearchMode := default
  limit : Option Nat := none
  language : Option String := none
  outputMode : OutputMode := default
  fullContent : Bool := false
  previewLength : Option Nat := none
  /-- How many lines of the source are shown on either side of a result. -/
  context : Nat := 0
  profile : Option ProfileName := none
  deriving Inhabited

/-- What the program does. -/
inductive Command where
  /-- Writes a settings file. -/
  | init
  /-- Builds an index from nothing. -/
  | index (path : Path) (profile : ProfileName) (languages : List String)
  /-- Builds an index from the previous one. -/
  | sync (path : Path)
  | search (path : Path) (options : SearchOptions)
  /-- Tells the numbers of an index. -/
  | stats (path : Path)
  /-- Builds an index again and again as files change. -/
  | watch (path : Path)
  deriving Inhabited

/-- A command with the options that go with every command. -/
structure Invocation where
  command : Command
  /-- The settings file, if it is not the one of the project. -/
  settings : Option Path := none
  format : OutputFormat := default
  verbose : Bool := false
  deriving Inhabited

/-! ## Rules -/

namespace OptionRule

/-- An option with a path, which is not empty. -/
def path (name : String) : OptionRule := { name, accepts := some (· ≠ "") }

/-- An option with one of some choices. -/
def choice {α : Type} (name : String) (ofText : String → Except String α) : OptionRule :=
  { name, accepts := some fun text => (ofText text).isOk }

/-- An option with a number. -/
def number (name : String) : OptionRule :=
  { name, accepts := some fun text => (readNumber? text).isSome }

/-- An option with any text. -/
def text (name : String) : OptionRule := { name, accepts := some fun _ => true }

end OptionRule

namespace CommandRule

/-- The options that go with every command. -/
def shared : List OptionRule :=
  [.path "config", .choice "format" OutputFormat.ofText, { name := "verbose", letter := some 'v' }]

/-- The commands that read no operands. -/
def plain (options : List OptionRule) : CommandRule := { options := options ++ shared }

/-- The rules of each command. -/
def ofCommands : List (String × CommandRule) :=
  [("init", plain []),
   ("index", plain [.path "path", .choice "profile" ProfileName.ofText,
      { OptionRule.text "language" with repeats := true }]),
   ("sync", plain [.path "path"]),
   ("search",
      { plain [.path "path", .choice "mode" SearchMode.ofText, .number "limit",
          .text "language", .choice "output-mode" OutputMode.ofText,
          { name := "full-content" }, .number "preview-length", .number "context",
          .choice "profile" ProfileName.ofText] with operands := 1 }),
   ("stats", plain [.path "path"]),
   ("watch", plain [.path "path"])]

/-- The rule for the arguments before a command. -/
def top : CommandRule where
  options := shared
  commands := ofCommands.map (·.1)
  hasVersion := true

end CommandRule

/-! ## Reading -/

namespace Arguments

/-- The choice that an option was given. -/
def choice? {α : Type} (a : Arguments) (name : String) (ofText : String → Except String α) :
    Option α :=
  (a.value? name).bind fun text => (ofText text).toOption

/-- The number that an option was given. -/
def number? (a : Arguments) (name : String) : Option Nat := (a.value? name).bind readNumber?

/-- The root of the project. -/
def root (a : Arguments) : Path := ⟨(a.value? "path").getD "."⟩

/-- The options of a search for a query. -/
def searchOptions (a : Arguments) (query : String) : SearchOptions where
  query
  mode := (a.choice? "mode" SearchMode.ofText).getD default
  limit := a.number? "limit"
  language := a.value? "language"
  outputMode := (a.choice? "output-mode" OutputMode.ofText).getD default
  fullContent := a.has "full-content"
  previewLength := a.number? "preview-length"
  context := (a.number? "context").getD 0
  profile := a.choice? "profile" ProfileName.ofText

/-- The command of a name with its arguments. -/
def command? (a : Arguments) (name : String) : Option Command :=
  match name, a.operands with
  | "init", [] => some .init
  | "index", [] =>
    some (.index a.root ((a.choice? "profile" ProfileName.ofText).getD default)
      (a.values "language"))
  | "sync", [] => some (.sync a.root)
  | "search", [query] => some (.search a.root (a.searchOptions query))
  | "stats", [] => some (.stats a.root)
  | "watch", [] => some (.watch a.root)
  | _, _ => none

end Arguments

namespace Invocation

/-- An invocation from the arguments before the command and those after it. -/
def ofArguments (above below : Arguments) (command : Command) : Invocation where
  command
  settings := ((below.value? "config").or (above.value? "config")).map Path.mk
  format := ((below.choice? "format" OutputFormat.ofText).or
    (above.choice? "format" OutputFormat.ofText)).getD default
  verbose := below.has "verbose" || above.has "verbose"

/-- The invocation that arguments spell. -/
def read (words : List String) : Except ArgumentStop Invocation := do
  match ← Arguments.scan .top {} words with
  | (_, none) => throw .misuse
  | (above, some (name, rest)) =>
    match CommandRule.ofCommands.find? (·.1 == name) with
    | none => throw .misuse
    | some (_, rule) =>
      let (below, _) ← Arguments.scan rule {} rest
      let below ← below.settle
      match below.command? name with
      | none => throw .misuse
      | some command =>
        let above ← above.settle
        return ofArguments above below command

/-! ## Usage -/

/-- How an option is written. -/
def optionUsage (rule : OptionRule) : String :=
  "[--" ++ rule.name ++ (if rule.accepts.isSome then " <" ++ rule.name ++ ">]" else "]") ++
    (if rule.repeats then "..." else "")

/-- How a command is written. -/
def commandUsage (name : String) (rule : CommandRule) : String :=
  "  " ++ " ".intercalate
    ([name] ++ (if rule.operands = 0 then [] else ["<query>"]) ++ rule.options.map optionUsage)

/-- How the program is called. -/
def usage : String :=
  "Usage: codebox <command>\n\n" ++
    "".intercalate (CommandRule.ofCommands.map fun (name, rule) => commandUsage name rule ++ "\n")

/-- The name and the version of the program. -/
def versionText : String := "codebox 0.1.0\n"

end Invocation

end SourceIndex
