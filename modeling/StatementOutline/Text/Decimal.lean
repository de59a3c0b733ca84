import StatementOutline.Text.Numeral

/-!
# Decimal words

Reading a 64-bit word from its decimal digits. A text is read from left to right and the first
fault met is the one reported; at one and the same character a bad digit is reported before an
overflow.
-/

namespace StatementOutline.Text

/-- Why a text is not the decimal form of a word. -/
inductive DigitFault
  | badDigit
  | tooLarge
deriving DecidableEq

/-- The wording of a fault. -/
def DigitFault.message : DigitFault → String
  | .badDigit => "invalid digit found in string"
  | .tooLarge => "number too large to fit in target type"

/-- Reads digits after those that gave `acc`. -/
def readDigits : Nat → List Char → Except DigitFault Nat
  | acc, [] => .ok acc
  | acc, c :: cs =>
    if c.isDigit then
      let next := 10 * acc + digitValue c
      if next < UInt64.size then readDigits next cs else .error .tooLarge
    else
      .error .badDigit

/-- Reads a word: at least one digit, with an optional plus sign in front. -/
def readWord (s : String) : Except DigitFault UInt64 :=
  let digits := match s.toList with
    | '+' :: rest => rest
    | cs => cs
  if digits.isEmpty then .error .badDigit
  else (readDigits 0 digits).map UInt64.ofNat

end StatementOutline.Text
