import StatementOutline.Outline
import StatementOutline.Text.Blank
import StatementOutline.Text.Quoted

/-!
# Dumps

The written forms of an outline. A dump has one line for each statement, indented by its depth, with
its kind, range and shape and the beginning of its text in quotes.
-/

namespace StatementOutline.Outline

/-- The kind of a statement and its range. -/
def label (o : Outline) (e : Entry) : List Char :=
  e.kind.toList ++ [' ', '['] ++ (o.rangeOf e).text.toList ++ [')']

/-- The most characters that a snippet shows. -/
def snippetLength : Nat := 40

/-- The beginning of a text: its first line without the blanks at the end, cut short after some
characters. -/
def snippet (cs : List Char) : List Char :=
  let line := Text.trimEnd (cs.takeWhile (· ≠ '\n'))
  if snippetLength < line.length then line.take snippetLength ++ ['.', '.', '.'] else line

/-- The word for a statement with a block in its body, or for one without. -/
def shape (e : Entry) : List Char :=
  (if e.compound then "compound" else "simple").toList

/-- The line of a statement without its indentation. -/
def describe (o : Outline) (e : Entry) : List Char :=
  o.label e ++ [' '] ++ shape e ++ [' '] ++ Text.quote (snippet (o.textOf e).toList)

/-- The line of a statement with its end. -/
def dumpLine (o : Outline) (id : Nat) (e : Entry) : List Char :=
  List.replicate (2 * o.forest.depth id) ' ' ++ o.describe e ++ ['\n']

/-- All statements, one line each. -/
def dump (o : Outline) : String :=
  String.ofList ((List.range o.size).flatMap fun id => ((o.get? id).map (o.dumpLine id)).getD [])

/-- The labels of the statements from the top down to a statement. -/
def pathText (o : Outline) (id : Nat) : String :=
  let chain := (id :: o.forest.ancestors id).reverse.filterMap o.get?
  String.ofList (List.intercalate [' ', '>', ' '] (chain.map o.label))

/-! ## Summaries -/

/-- A truth value in a word. -/
def truth (b : Bool) : String :=
  if b then "true" else "false"

/-- A one-line summary. -/
def summary (o : Outline) : String :=
  "StatementTree \x7b language: " ++ o.language.title ++ ", query: " ++ o.query.text ++
    ", built: " ++ truth o.isBuilt ++ ", statements: " ++ Text.decimal o.size ++ ", .. \x7d"

/-- A one-line summary of a statement. -/
def entrySummary (o : Outline) (e : Entry) : String :=
  "StatementNode \x7b kind: " ++ String.ofList (Text.quote e.kind.toList) ++ ", range: " ++
    (o.rangeOf e).text ++ ", compound: " ++ truth e.compound ++ ", children: " ++
    Text.decimal e.children.size ++ " \x7d"

end StatementOutline.Outline
