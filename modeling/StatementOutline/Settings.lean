import StatementOutline.Text.Case

/-!
# Settings

The choices that govern an outline: the unit of offsets, the rule by which a query selects
statements, and the largest source accepted.
-/

namespace StatementOutline

/-- The unit in which offsets are counted. -/
inductive OffsetUnit
  | utf8
  | utf16
deriving DecidableEq

/-- Which statements a query selects: those that meet it, or those that lie inside it together
with the compound statements around its ends. -/
inductive RangePolicy
  | intersecting
  | contained
deriving DecidableEq

structure Settings where
  unit : OffsetUnit
  policy : RangePolicy
  /-- The largest source accepted, in bytes. -/
  limit : UInt64
deriving DecidableEq

namespace OffsetUnit

def name : OffsetUnit → String
  | utf8 => "utf8"
  | utf16 => "utf16"

/-- Every spelling of a unit, the one it is written by first. -/
def spellings : OffsetUnit → List String
  | utf8 => ["utf8", "utf-8", "bytes"]
  | utf16 => ["utf16", "utf-16"]

/-- The unit with exactly this spelling. -/
def ofSpelling? (text : String) : Option OffsetUnit :=
  [utf8, utf16].find? fun u => u.spellings.contains text

/-- The unit with this spelling in any case. -/
def ofText? (text : String) : Option OffsetUnit :=
  ofSpelling? (Text.foldCase text)

end OffsetUnit

namespace RangePolicy

def name : RangePolicy → String
  | intersecting => "intersecting"
  | contained => "contained"

/-- The policy with exactly this name. -/
def ofName? (text : String) : Option RangePolicy :=
  [intersecting, contained].find? fun p => p.name == text

/-- The policy with this name in any case. -/
def ofText? (text : String) : Option RangePolicy :=
  ofName? (Text.foldCase text)

end RangePolicy

/-- Bytes, every statement that meets the query, and at most 16 MiB of source. -/
def Settings.standard : Settings :=
  ⟨.utf8, .intersecting, 16777216⟩

end StatementOutline
