import StatementOutline.Language
import StatementOutline.Node
import StatementOutline.Text.Position

/-!
# Parses

A parse is a source text with the tree that a parser made of it. A parser goes on after an error, so
a tree may hold faults, which are reported with their place in the source.
-/

namespace StatementOutline

structure Parse where
  language : Language
  source : String
  root : Node

/-- A fault of a parse and where it starts. -/
structure SyntaxFault where
  span : Span
  line : Nat
  column : Nat
  message : String

namespace Parse

/-- The parser came upon faults. -/
def damaged (p : Parse) : Bool :=
  p.root.damaged

/-- The largest line or column that is reported. Those behind it are reported as this one. -/
def lastPlace : Nat :=
  UInt32.size - 1

/-- The report of a faulty node. -/
def report (p : Parse) (n : Node) : SyntaxFault :=
  let (line, column) := Text.lineColumn p.source.toList n.start
  ⟨n.span, min line lastPlace, min column lastPlace,
    if n.missing then "missing " ++ n.kind else "syntax error"⟩

/-- The faults of the parse, in pre-order. -/
def faults (p : Parse) : List SyntaxFault :=
  p.root.faults.map p.report

/-- The text of a node; nothing if it does not lie on character boundaries. -/
def textOf (p : Parse) (n : Node) : String :=
  ((Text.slice? p.source.toList n.start n.stop).map String.ofList).getD ""

/-- A one-line summary. -/
def summary (p : Parse) : String :=
  "CstHandle \x7b language: " ++ p.language.title ++ ", source_len: " ++
    Text.decimal (Text.totalBytes p.source.toList) ++ ", .. \x7d"

end Parse

end StatementOutline
