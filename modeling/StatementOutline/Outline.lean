import StatementOutline.Failure
import StatementOutline.Forest.Lookup
import StatementOutline.Grammar.Profile
import StatementOutline.Offsets
import StatementOutline.Parse
import StatementOutline.Scope

/-!
# Outlines

An outline holds the statements of a source that a query selects. It is made unbuilt, is built once
from the parse of its source, and can then be asked for its statements, which go by their positions
in pre-order. Spans are reported in the unit in which the query was given.
-/

namespace StatementOutline

/-- What building an outline gives. -/
structure Outline.Contents where
  parse : Parse
  forest : Forest

structure Outline where
  language : Language
  source : String
  /-- The query as it was given. -/
  query : Span
  /-- The query in bytes. -/
  byteQuery : Span
  settings : Settings
  offsets : Offsets
  contents : Option Outline.Contents

namespace Outline

/-- An unbuilt outline. The size of the source is checked first, then the query. -/
def create (language : Language) (source : String) (query : Span) (settings : Settings) :
    Except Failure Outline :=
  let bytes := Text.totalBytes source.toList
  if settings.limit.toNat < bytes then .error (.sourceTooLarge bytes settings.limit.toNat)
  else
    let offsets := Offsets.ofSource source settings.unit
    if query.stop < query.start ∨ offsets.unitLen < query.stop then
      .error (.invalidRange query offsets.unitLen)
    else
      .ok ⟨language, source, query, offsets.toBytes query, settings, offsets, none⟩

/-- An unbuilt outline of a source whose language is given by an identifier. A failure shows the
identifier as it was given. -/
def createById (id source : String) (query : Span) (settings : Settings) :
    Except Failure Outline :=
  match Language.ofId? id with
  | none => .error (.unsupportedLanguage id)
  | some language => create language source query settings

/-- The scope of the query, in bytes. -/
def scope (o : Outline) : Scope :=
  ⟨o.byteQuery, o.settings.policy⟩

/-- Builds the outline from the tree of its source. An outline is built once. -/
def build (o : Outline) (root : Node) : Except Failure Outline :=
  match o.contents with
  | some _ => .error .alreadyBuilt
  | none =>
    match Forest.ofSketch o.scope (o.language.rules.sketchRoot root) with
    | .error v => .error (.inconsistent v.message)
    | .ok forest => .ok { o with contents := some ⟨⟨o.language, o.source, root⟩, forest⟩ }

/-! ## Statements -/

def isBuilt (o : Outline) : Bool :=
  o.contents.isSome

/-- The statements; none before the outline is built. -/
def forest (o : Outline) : Forest :=
  (o.contents.map Contents.forest).getD .empty

/-- The number of statements. -/
def size (o : Outline) : Nat :=
  o.forest.size

/-- The statement with a position. -/
def get? (o : Outline) (id : Nat) : Option Entry :=
  o.forest.get? id

/-- The statements at the top. -/
def roots (o : Outline) : List Nat :=
  o.forest.roots.toList

/-- The span of a statement in the caller's unit. -/
def rangeOf (o : Outline) (e : Entry) : Span :=
  o.offsets.ofBytes e.span

/-- The text of a statement; nothing if it does not lie on character boundaries. -/
def textOf (o : Outline) (e : Entry) : String :=
  ((Text.slice? o.source.toList e.span.start e.span.stop).map String.ofList).getD ""

/-- The innermost statement that owns an offset in the caller's unit. -/
def statementAt? (o : Outline) (offset : Nat) : Option Nat :=
  o.forest.innermost? (o.offsets.toByte offset)

/-- The parser came upon faults. -/
def damaged (o : Outline) : Bool :=
  (o.contents.map fun c => c.parse.damaged).getD false

/-- The faults that the parser came upon. -/
def faults (o : Outline) : List SyntaxFault :=
  (o.contents.map fun c => c.parse.faults).getD []

end Outline

end StatementOutline
