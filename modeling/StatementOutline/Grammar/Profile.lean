import StatementOutline.Grammar.Managed
import StatementOutline.Grammar.Native
import StatementOutline.Grammar.Script
import StatementOutline.Language

/-!
# The rules of each language
-/

namespace StatementOutline

/-- The rules of a language, with those of the language that it extends. -/
def Language.rules : Language → Rules
  | .c => Grammar.c
  | .cpp => Grammar.cppExtras.refining Grammar.c
  | .csharp => Grammar.csharp
  | .go => Grammar.go
  | .java => Grammar.java
  | .javaScript => Grammar.javaScript
  | .php => Grammar.php
  | .python => Grammar.python
  | .ruby => Grammar.ruby
  | .rust => Grammar.rust
  | .typeScript => Grammar.typeScriptExtras.refining Grammar.javaScript
  | .tsx => Grammar.typeScriptExtras.refining Grammar.javaScript

end StatementOutline
