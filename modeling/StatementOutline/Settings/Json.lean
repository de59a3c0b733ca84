import StatementOutline.Json
import StatementOutline.Settings
import StatementOutline.Text.Decimal

/-!
# Settings as JSON

Settings are written as an object with one field for each choice. They are read from an object in
which fields may be missing or unknown but no known field is given twice, or from an array that
lists the choices in order and may stop early. A name may stand alone or as the key of an object
whose value is null, and it is spelled exactly.
-/

namespace StatementOutline.Settings

/-- The written form of settings. -/
def toJson (s : Settings) : Json :=
  Json.record [("offset_encoding", .text s.unit.name), ("range_policy", .text s.policy.name),
    ("max_source_bytes", .nat s.limit.toNat)]

/-- The name that a value spells: a string, or an object with that one key and no value. -/
def nameOf? : Json → Option String
  | .str name => name
  | .obj [(name, .null)] => name
  | _ => none

def unitOf? (v : Json) : Option OffsetUnit :=
  nameOf? v >>= OffsetUnit.ofSpelling?

def policyOf? (v : Json) : Option RangePolicy :=
  nameOf? v >>= RangePolicy.ofName?

/-- The limit that a number spells: a literal of digits alone. -/
def limitOf? : Json → Option UInt64
  | .num literal => (Text.readWord literal).toOption
  | _ => none

/-- The value of a known field, which may be given once. Where the key is missing the standard value
holds. -/
def readOnce (read? : Json → Option α) (standard : α) (key : String)
    (fields : List (Option String × Json)) : Option α :=
  match fields.filter fun f => f.1 == some key with
  | [] => some standard
  | [(_, v)] => read? v
  | _ => none

/-- Every key of an object holds a text. -/
def keysAreTexts (fields : List (Option String × Json)) : Bool :=
  fields.all fun f => f.1.isSome

/-- The settings that a value spells, if it spells any. -/
def ofJson? : Json → Option Settings
  | .obj fields =>
    if keysAreTexts fields then do
      let unit ← readOnce unitOf? standard.unit "offset_encoding" fields
      let policy ← readOnce policyOf? standard.policy "range_policy" fields
      let limit ← readOnce limitOf? standard.limit "max_source_bytes" fields
      return ⟨unit, policy, limit⟩
    else none
  | .arr items =>
    match items with
    | [] => some standard
    | [u] => do return { standard with unit := ← unitOf? u }
    | [u, p] => do return { standard with unit := ← unitOf? u, policy := ← policyOf? p }
    | [u, p, n] => do return ⟨← unitOf? u, ← policyOf? p, ← limitOf? n⟩
    | _ => none
  | _ => none

end StatementOutline.Settings
