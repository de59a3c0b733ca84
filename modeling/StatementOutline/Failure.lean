import StatementOutline.Language
import StatementOutline.Span

/-!
# Failures

Why an outline cannot be made, each cause with its wording.
-/

namespace StatementOutline

inductive Failure
  /-- No language goes by the identifier. -/
  | unsupportedLanguage (id : String)
  /-- The query is inverted or reaches past the end of the source. -/
  | invalidRange (range : Span) (length : Nat)
  /-- The source has more bytes than the settings allow. -/
  | sourceTooLarge (bytes limit : Nat)
  /-- There is no parser for the language. -/
  | parserMissing (language : Language) (detail : String)
  /-- The parser gave no tree. -/
  | unparsed (language : Language) (detail : String)
  /-- The outline has been built before. -/
  | alreadyBuilt
  /-- A statement broke a rule of the forest. -/
  | inconsistent (detail : String)
deriving DecidableEq

def Failure.message : Failure → String
  | unsupportedLanguage id => "unsupported language: '" ++ id ++ "'"
  | invalidRange range length =>
    "invalid range " ++ range.text ++ " for source of length " ++ Text.decimal length
  | sourceTooLarge bytes limit =>
    "source of " ++ Text.decimal bytes ++ " bytes exceeds the limit of " ++ Text.decimal limit ++
      " bytes"
  | parserMissing language detail =>
    "failed to initialise parser for " ++ language.id ++ ": " ++ detail
  | unparsed language detail => "failed to parse " ++ language.id ++ ": " ++ detail
  | alreadyBuilt => "statement tree has already been built"
  | inconsistent detail => "inconsistent statement tree: " ++ detail

/-- The language that an identifier names; a failure shows the normalised identifier. -/
def Language.parse (id : String) : Except Failure Language :=
  match Language.ofId? id with
  | some l => .ok l
  | none => .error (.unsupportedLanguage (Language.normalise id))

end StatementOutline
