import SourceIndex.Path
import SourceIndex.Text.Lowercase

set_option autoImplicit false

/-! # Languages

The languages of source files, their names, and the tables that find a language by file
extension, by file name and by the names people give it. Nine of them have a grammar: their
files are parsed, all others are cut into line windows.
-/

namespace SourceIndex

/-- The language of a file. -/
inductive Language where
  | rust
  | python
  | typeScript
  | tsx
  | javaScript
  | go
  | java
  | c
  | cpp
  | cSharp
  | ruby
  | php
  | kotlin
  | swift
  | scala
  | lua
  | shell
  | sql
  | html
  | css
  | markdown
  | json
  | yaml
  | toml
  | xml
  | text
  deriving DecidableEq, Repr, Inhabited

namespace Language

/-- The name an index stores. -/
def id : Language → String
  | .rust => "rust"
  | .python => "python"
  | .typeScript => "typescript"
  | .tsx => "tsx"
  | .javaScript => "javascript"
  | .go => "go"
  | .java => "java"
  | .c => "c"
  | .cpp => "cpp"
  | .cSharp => "csharp"
  | .ruby => "ruby"
  | .php => "php"
  | .kotlin => "kotlin"
  | .swift => "swift"
  | .scala => "scala"
  | .lua => "lua"
  | .shell => "shell"
  | .sql => "sql"
  | .html => "html"
  | .css => "css"
  | .markdown => "markdown"
  | .json => "json"
  | .yaml => "yaml"
  | .toml => "toml"
  | .xml => "xml"
  | .text => "text"

/-- All languages. -/
def all : List Language :=
  [.rust, .python, .typeScript, .tsx, .javaScript, .go, .java, .c, .cpp, .cSharp, .ruby, .php,
   .kotlin, .swift, .scala, .lua, .shell, .sql, .html, .css, .markdown, .json, .yaml, .toml,
   .xml, .text]

/-- The language with a given name in an index. -/
def ofId? (id : String) : Option Language := all.find? fun l => l.id == id

/-- Whether files of the language are parsed. -/
def hasGrammar : Language → Bool
  | .rust | .python | .typeScript | .tsx | .javaScript | .go | .java | .c | .cpp => true
  | _ => false

/-! ## Tables -/

/-- The extensions of each language, in lower case. -/
def extensionTable : List (List String × Language) :=
  [(["rs"], .rust),
   (["py", "pyi", "pyw"], .python),
   (["ts", "mts", "cts"], .typeScript),
   (["tsx"], .tsx),
   (["js", "jsx", "mjs", "cjs"], .javaScript),
   (["go"], .go),
   (["java"], .java),
   (["c", "h"], .c),
   (["cpp", "cc", "cxx", "hpp", "hxx", "hh"], .cpp),
   (["cs"], .cSharp),
   (["rb"], .ruby),
   (["php"], .php),
   (["kt", "kts"], .kotlin),
   (["swift"], .swift),
   (["scala", "sc"], .scala),
   (["lua"], .lua),
   (["sh", "bash", "zsh"], .shell),
   (["sql"], .sql),
   (["html", "htm"], .html),
   (["css", "scss"], .css),
   (["md", "markdown"], .markdown),
   (["json"], .json),
   (["yaml", "yml"], .yaml),
   (["toml"], .toml),
   (["xml"], .xml),
   (["txt", "text"], .text)]

/-- The file names that tell a language. -/
def fileNameTable : List (List String × Language) :=
  [(["Dockerfile", "Makefile", "makefile", "GNUmakefile"], .shell),
   (["Cargo.lock", "Pipfile"], .toml),
   (["CMakeLists.txt"], .text)]

/-- The names people give a language, in lower case and without a version. -/
def nameTable : List (List String × Language) :=
  [(["rust"], .rust),
   (["python", "py"], .python),
   (["typescript", "ts"], .typeScript),
   (["tsx", "typescriptreact"], .tsx),
   (["javascript", "js", "node", "nodejs", "deno", "bun"], .javaScript),
   (["go", "golang"], .go),
   (["java"], .java),
   (["c"], .c),
   (["cpp", "c++"], .cpp),
   (["csharp", "cs"], .cSharp),
   (["ruby", "rb"], .ruby),
   (["php"], .php),
   (["kotlin"], .kotlin),
   (["swift"], .swift),
   (["scala"], .scala),
   (["lua"], .lua),
   (["sh", "bash", "zsh", "shell", "dash"], .shell),
   (["sql"], .sql),
   (["html"], .html),
   (["css"], .css),
   (["markdown", "md"], .markdown),
   (["json"], .json),
   (["yaml"], .yaml),
   (["toml"], .toml),
   (["xml"], .xml)]

/-- The language beside a word of a table. -/
def lookUp (table : List (List String × Language)) (word : String) : Option Language :=
  (table.find? fun row => row.1.contains word).map (·.2)

/-- The language of a file extension in any case. -/
def ofExtension? (ext : String) : Option Language :=
  lookUp extensionTable (Text.asciiLowercase ext)

/-- The language of a file name. -/
def ofFileName? (name : String) : Option Language := lookUp fileNameTable name

/-- The language a name stands for: in any case, with blanks around it, and with version
digits and dots after it. -/
def ofName? (name : String) : Option Language :=
  let base := Text.asciiLowercase (Text.trim name)
  lookUp nameTable (Text.trimRightWhere (fun c => c.isDigit || c == '.') base)

end Language

end SourceIndex
