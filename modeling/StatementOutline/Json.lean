import StatementOutline.Text.Numeral

/-!
# JSON values

The values of the JSON grammar and their written form. A number is kept as the literal that
spells it, so that no reader has to choose a precision, and a string whose escapes name half of a
surrogate pair holds no text.
-/

namespace StatementOutline

inductive Json
  | null
  | bool (value : Bool)
  | num (literal : String)
  | str (text : Option String)
  | arr (items : List Json)
  | obj (fields : List (Option String × Json))

namespace Json

/-- A string value with a given text. -/
def text (s : String) : Json :=
  .str (some s)

/-- The literal of a natural number. -/
def nat (n : Nat) : Json :=
  .num (Text.decimal n)

/-- An object with the given fields. -/
def record (fields : List (String × Json)) : Json :=
  .obj (fields.map fun (k, v) => (some k, v))

/-- The value of the last field with a key. -/
def field? : Json → String → Option Json
  | .obj fields, key => (fields.reverse.find? fun f => f.1 == some key).map (·.2)
  | _, _ => none

/-! ## The written form -/

/-- A four-digit escape. -/
def unicodeEscape (n : Nat) : List Char :=
  let digits := Text.digits 16 n
  '\\' :: 'u' :: List.replicate (4 - digits.length) '0' ++ digits

/-- A character inside a JSON string. -/
def escape (c : Char) : List Char :=
  if c = '"' then ['\\', '"']
  else if c = '\\' then ['\\', '\\']
  else if c.toNat < 0x20 then unicodeEscape c.toNat
  else [c]

/-- A JSON string. A string without a text is written as a lone half of a pair. -/
def writeString : Option String → List Char
  | some s => '"' :: s.toList.flatMap escape ++ ['"']
  | none => '"' :: unicodeEscape 0xd800 ++ ['"']

mutual
/-- The characters of a value, written without blanks in front of those that follow. -/
def write : Json → List Char → List Char
  | .null, rest => 'n' :: 'u' :: 'l' :: 'l' :: rest
  | .bool true, rest => 't' :: 'r' :: 'u' :: 'e' :: rest
  | .bool false, rest => 'f' :: 'a' :: 'l' :: 's' :: 'e' :: rest
  | .num literal, rest => literal.toList ++ rest
  | .str s, rest => writeString s ++ rest
  | .arr [], rest => '[' :: ']' :: rest
  | .arr (v :: vs), rest => '[' :: write v (writeItems vs rest)
  | .obj [], rest => '\x7b' :: '\x7d' :: rest
  | .obj ((k, v) :: fs), rest => '\x7b' :: writeString k ++ ':' :: write v (writeFields fs rest)

/-- The remaining items of an array and its end. -/
def writeItems : List Json → List Char → List Char
  | [], rest => ']' :: rest
  | v :: vs, rest => ',' :: write v (writeItems vs rest)

/-- The remaining fields of an object and its end. -/
def writeFields : List (Option String × Json) → List Char → List Char
  | [], rest => '\x7d' :: rest
  | (k, v) :: fs, rest => ',' :: writeString k ++ ':' :: write v (writeFields fs rest)
end

/-- The written form of a value. -/
def render (v : Json) : String :=
  String.ofList (write v [])

end Json

end StatementOutline
