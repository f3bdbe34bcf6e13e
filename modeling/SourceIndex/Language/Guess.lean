import SourceIndex.Language.Basic
import SourceIndex.Json.Read

set_option autoImplicit false

/-! # Resolving the language of a file

A file extension decides, except that a header may turn out to be C++ and a text file may be
anything; then the file name decides, then the first bytes of the content, and a file that
tells nothing is plain text.

The content tells its language by an interpreter line, an editor's mode line among the first
five lines, the opening tag of PHP, being JSON, or at least two of a language's markers.

* `Language.guess`: the language the content tells.
* `Language.resolve`: the language of a file.
-/

namespace SourceIndex

namespace Language

/-- How many bytes of a content are looked at. -/
def sampleBytes : Nat := 4096

/-! ## Interpreter and mode lines -/

/-- The part of a text after its last slash. -/
def lastPiece (text : String) : String :=
  (Text.split (· == '/') text).getLastD text

/-- The language of the interpreter named after `#!`; `env` names it in its first argument
that is no option. -/
def ofInterpreter? (line : String) : Option Language :=
  match Text.words line with
  | [] => none
  | program :: args =>
    if lastPiece program = "env" then
      (args.find? fun a => !Text.startsWith a "-").bind ofName?
    else ofName? (lastPiece program)

/-- The language a field between `-*-` marks names, as `mode: name` or as the bare name. -/
def ofModeField? (field : String) : Option Language :=
  let field := Text.trim field
  match Text.stripLead? field "mode:" with
  | some value => ofName? value
  | none => if Text.contains field ":" then none else ofName? field

/-- The language named by a setting `key` in a mode line. -/
def ofModeSetting? (line key : String) : Option Language :=
  (Text.cutAt? key.toList line.toList).bind fun (_, rest) =>
    ofName? (String.ofList (rest.takeWhile fun c => c.isAlphanum || c == '+'))

/-- The language an editor's mode line names. -/
def ofModeLine? (line : String) : Option Language :=
  let marks := "-*-".toList
  let marked : Option Language :=
    (Text.cutAt? marks line.toList).bind fun (_, rest) =>
      let inner :=
        match Text.cutAt? marks rest with
        | some (inner, _) => inner
        | none => rest
      (Text.split (· == ';') (String.ofList inner)).findSome? ofModeField?
  match marked with
  | some l => some l
  | none =>
    if Text.contains line "vim:" || Text.contains line "vi:" then
      ["filetype=", "ft=", "syntax="].findSome? (ofModeSetting? line)
    else none

/-! ## Markers -/

/-- What of a language shows in a sample: each entry is a marker that is present or not. -/
def markers (sample : String) : List (Language × List Bool) :=
  let ls := Text.lines sample
  let bare := ls.map Text.trimLeft
  let line (lead : String) : Bool := bare.any fun l => Text.startsWith l lead
  let has (part : String) : Bool := Text.contains sample part
  let includes := line "#include"
  [(.cpp,
    [includes && (has "std::" || has "namespace "),
     has "template <" || has "template<",
     line "namespace ",
     line "class " && has "public:"]),
   (.c, [includes, has "int main(", has "printf(" || has "malloc("]),
   (.rust,
    [has "fn main(" || line "pub fn " || line "fn ",
     line "use std::" || line "use crate::",
     line "impl " || has "let mut "]),
   (.go, [line "package ", line "func ", line "import (" || has ":= "]),
   (.python,
    [ls.any fun l => Text.startsWith (Text.trimLeft l) "def " && Text.endsWith (Text.trimRight l) ":",
     line "import " || line "from ",
     has "self." || line "elif " || has "__name__"]),
   (.java,
    [line "public class " || line "public final class ",
     line "import java." || has "System.out.",
     line "package " && has ";"]),
   (.typeScript,
    [line "interface " || line "export interface ",
     has ": string" || has ": number",
     line "export type " || line "type "]),
   (.javaScript,
    [line "function " || has "=> \x7b",
     has "require(" || has "module.exports",
     line "const " || line "let "]),
   (.shell,
    [ls.any fun l => ["fi", "esac", "done"].contains (Text.trim l),
     has "$(" || has "$\x7b",
     line "echo "])]

/-- The candidate with the most markers, the last one of those with equally many. -/
def mostMarked (candidates : List (Language × Nat)) : Option Language :=
  (candidates.foldl
    (fun (best : Option (Language × Nat)) c =>
      match best with
      | none => some c
      | some b => if b.2 ≤ c.2 then some c else some b)
    none).map (·.1)

/-- The language with the most markers in a sample, if it has two at least. -/
def ofMarkers? (sample : String) : Option Language :=
  let scores := (markers sample).map fun (l, found) => (l, found.count true)
  mostMarked (scores.filter fun s => 2 ≤ s.2)

/-! ## Resolution -/

/-- Whether a text is a JSON object or array. -/
def isJsonDocument (text : String) : Bool :=
  let body := Text.trim text
  (Text.startsWith body "\x7b" || Text.startsWith body "[") && (Json.read? body).isSome

/-- The language that the first bytes of a content tell. -/
def guess (content : String) : Option Language :=
  let sample := Text.leadingBytes sampleBytes content
  let ls := Text.lines sample
  let interpreter := (Text.stripLead? (ls.headD "") "#!").bind ofInterpreter?
  match interpreter with
  | some l => some l
  | none =>
    match (ls.take 5).findSome? ofModeLine? with
    | some l => some l
    | none =>
      if Text.startsWith (Text.trimLeft sample) "<?php" then some .php
      else if isJsonDocument sample then some .json
      else ofMarkers? sample

/-- The language of a file, and whether its content told it. -/
structure Resolution where
  language : Language
  guessed : Bool
  deriving DecidableEq, Repr

/-- The language of a file with the given path and content. -/
def resolve (path : Path) (content : String) : Resolution :=
  let ext := path.extension?
  let byExtension : Option Resolution :=
    match ext, ext.bind ofExtension? with
    | some e, some l =>
      if Text.asciiLowercase e = "h" && guess content == some .cpp then some ⟨.cpp, true⟩
      else if l = .text then none
      else some ⟨l, false⟩
    | _, _ => none
  match byExtension with
  | some r => r
  | none =>
    match path.fileName?.bind ofFileName? with
    | some l => ⟨l, false⟩
    | none =>
      match guess content with
      | some l => ⟨l, true⟩
      | none => ⟨.text, false⟩

end Language

end SourceIndex
