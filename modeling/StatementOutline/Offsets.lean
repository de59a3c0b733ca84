import StatementOutline.Search
import StatementOutline.Settings
import StatementOutline.Span
import StatementOutline.Text.Units

/-!
# Offsets

A source is addressed in bytes or in UTF-16 units. `Offsets` turns one into the other: it records
every character that is not ASCII, and counts one byte and one unit for each character between two
of them. An offset inside a character is taken for the start of that character.
-/

namespace StatementOutline

open Text

/-- A character that is not ASCII: where it starts and how long it is, in both units. -/
structure WideChar where
  byteStart : Nat
  unitStart : Nat
  byteLen : Nat
  unitLen : Nat

/-- The characters of a text that are not ASCII, given where the text starts. -/
def wideChars (byte unit : Nat) : List Char → List WideChar
  | [] => []
  | c :: cs =>
    let rest := wideChars (byte + byteLength c) (unit + unitLength c) cs
    if isAscii c then rest else ⟨byte, unit, byteLength c, unitLength c⟩ :: rest

/-- The table by which offsets of one source are converted. -/
structure Offsets where
  wide : Array WideChar
  byteLen : Nat
  unitLen : Nat

namespace Offsets

/-- The table of a source for callers that count in a given unit. Callers that count bytes need no
entries. -/
def ofSource (source : String) : OffsetUnit → Offsets
  | .utf8 => ⟨#[], totalBytes source.toList, totalBytes source.toList⟩
  | .utf16 =>
    ⟨(wideChars 0 0 source.toList).toArray, totalBytes source.toList, totalUnits source.toList⟩

/-- The last wide character that passes a test which holds on a front part of the table. -/
def lastWide? (t : Offsets) (p : WideChar → Bool) : Option WideChar :=
  match partitionPoint p t.wide with
  | 0 => none
  | n + 1 => t.wide[n]?

/-- The byte that a caller's offset stands for, at most the length of the source. Offsets are words
of 64 bits and a sum of them wraps around. -/
def toByte (t : Offsets) (offset : Nat) : Nat :=
  let byte := match t.lastWide? fun w => w.unitStart ≤ offset with
    | none => offset
    | some w =>
      if offset < w.unitStart + w.unitLen then w.byteStart
      else (w.byteStart + w.byteLen + (offset - w.unitStart - w.unitLen)) % UInt64.size
  min byte t.byteLen

/-- The caller's offset that a byte stands for, at most the length of the source. -/
def ofByte (t : Offsets) (byte : Nat) : Nat :=
  let offset := match t.lastWide? fun w => w.byteStart ≤ byte with
    | none => byte
    | some w =>
      if byte < w.byteStart + w.byteLen then w.unitStart
      else w.unitStart + w.unitLen + (byte - w.byteStart - w.byteLen)
  min offset t.unitLen

/-- The bytes that a caller's span stands for. -/
def toBytes (t : Offsets) (s : Span) : Span :=
  ⟨t.toByte s.start, t.toByte s.stop⟩

/-- The caller's span that a run of bytes stands for. -/
def ofBytes (t : Offsets) (s : Span) : Span :=
  ⟨t.ofByte s.start, t.ofByte s.stop⟩

end Offsets

end StatementOutline
