import StatementOutline.Text.Blank
import StatementOutline.Text.Case

/-!
# Languages

The languages whose statements are outlined, the names they go by, and how a language is told
from an identifier, a file extension or a path. `byName?_id` says that the canonical identifier
of a language names it.
-/

namespace StatementOutline

inductive Language
  | c
  | cpp
  | csharp
  | go
  | java
  | javaScript
  | php
  | python
  | ruby
  | rust
  | typeScript
  | tsx
deriving DecidableEq

namespace Language

/-- Every language, in the order in which they are listed. -/
def all : List Language :=
  [c, cpp, csharp, go, java, javaScript, php, python, ruby, rust, typeScript, tsx]

theorem mem_all (l : Language) : l ∈ all := by
  cases l <;> decide

/-- The canonical identifier, the one editors report for a document. -/
def id : Language → String
  | c => "c"
  | cpp => "cpp"
  | csharp => "csharp"
  | go => "go"
  | java => "java"
  | javaScript => "javascript"
  | php => "php"
  | python => "python"
  | ruby => "ruby"
  | rust => "rust"
  | typeScript => "typescript"
  | tsx => "typescriptreact"

/-- The name written in summaries. -/
def title : Language → String
  | c => "C"
  | cpp => "Cpp"
  | csharp => "CSharp"
  | go => "Go"
  | java => "Java"
  | javaScript => "JavaScript"
  | php => "Php"
  | python => "Python"
  | ruby => "Ruby"
  | rust => "Rust"
  | typeScript => "TypeScript"
  | tsx => "Tsx"

/-- The identifiers of a language, the canonical one first. -/
def names : Language → List String
  | c => ["c"]
  | cpp => ["cpp", "c++", "cxx"]
  | csharp => ["csharp", "c#", "cs"]
  | go => ["go", "golang"]
  | java => ["java"]
  | javaScript => ["javascript", "js", "javascriptreact", "jsx"]
  | php => ["php"]
  | python => ["python", "py"]
  | ruby => ["ruby", "rb"]
  | rust => ["rust", "rs"]
  | typeScript => ["typescript", "ts"]
  | tsx => ["typescriptreact", "tsx"]

/-- The file extensions of a language. -/
def extensions : Language → List String
  | c => ["c", "h"]
  | cpp => ["cc", "cpp", "cxx", "c++", "hh", "hpp", "hxx"]
  | csharp => ["cs"]
  | go => ["go"]
  | java => ["java"]
  | javaScript => ["js", "jsx", "mjs", "cjs"]
  | php => ["php"]
  | python => ["py", "pyi"]
  | ruby => ["rb"]
  | rust => ["rs"]
  | typeScript => ["ts", "mts", "cts"]
  | tsx => ["tsx"]

/-- An identifier as it is looked up: without padding and without capitals. -/
def normalise (name : String) : String :=
  Text.foldCase (Text.trim name)

/-- The language that goes by a normalised name. -/
def byName? (name : String) : Option Language :=
  all.find? fun l => l.names.contains name

/-- The language that an identifier names, in any case and with any padding. -/
def ofId? (name : String) : Option Language :=
  byName? (normalise name)

/-- The language of files with an extension, in any case. -/
def ofExtension? (ext : String) : Option Language :=
  all.find? fun l => l.extensions.contains (Text.foldCase ext)

theorem byName?_id (l : Language) : byName? l.id = some l := by
  cases l <;> decide

/-! ## Paths -/

/-- The pieces of a path between its slashes. -/
def pieces (path : List Char) : List (List Char) :=
  path.foldr
    (fun ch acc =>
      if ch = '/' then [] :: acc
      else match acc with
        | piece :: rest => (ch :: piece) :: rest
        | [] => [[ch]])
    [[]]

/-- The file that a path names: its last piece that is neither empty nor a single dot, unless that
piece leads to the enclosing directory. -/
def fileName? (path : List Char) : Option (List Char) :=
  ((pieces path).reverse.find? fun piece => piece ≠ [] ∧ piece ≠ ['.']).filter (· ≠ ['.', '.'])

/-- What follows the last dot of a file name. A dot in front does not start an extension. -/
def extension? (file : List Char) : Option (List Char) :=
  match file.reverse.dropWhile (· ≠ '.') with
  | [] => none
  | [_] => none
  | _ => some (file.reverse.takeWhile (· ≠ '.')).reverse

/-- The language of the file that a path names. -/
def ofPath? (path : String) : Option Language := do
  let file ← fileName? path.toList
  let ext ← extension? file
  ofExtension? (String.ofList ext)

end Language

end StatementOutline
