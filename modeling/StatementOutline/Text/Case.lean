/-!
# Names in any case

Names are looked up without regard to the case of ASCII letters; other letters keep theirs.
-/

namespace StatementOutline.Text

/-- The text with its ASCII capitals in lower case. -/
def foldCase (s : String) : String :=
  String.ofList (s.toList.map Char.toLower)

end StatementOutline.Text
