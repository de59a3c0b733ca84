import StatementOutline.Text.Units

/-!
# Lines and columns
-/

namespace StatementOutline.Text

/-- Counts lines and columns, both from where they stand, up to a byte position. -/
def countLines (line column : Nat) : List Char → Nat → Nat × Nat
  | [], n => (line, column + n)
  | c :: cs, n =>
    if n < byteLength c then (line, column + n)
    else if c = '\n' then countLines (line + 1) 1 cs (n - byteLength c)
    else countLines line (column + byteLength c) cs (n - byteLength c)

/-- The line of a byte position and its column in bytes, both counted from one. -/
def lineColumn (cs : List Char) (byte : Nat) : Nat × Nat :=
  countLines 1 1 cs byte

end StatementOutline.Text
