import Mathlib.Data.Rat.Cast.Order
import StatementOutline.Text.Decimal

/-!
# Words written in decimal

A word is read from digits, with any number of zeros and at most one plus sign in front. No other
spelling of a number is read, and no spelling of a number that is too large for a word.

* `readWord_eq_ok_iff`, `readWord_tooLarge`: the texts that are read, and as what;
* `Literal`: the ways to write a number with a sign, a fraction and an exponent;
* `readWord_eq_error_of_le`: a number too large for a word is refused however it is written.
-/

namespace StatementOutline.Text

variable {acc n : Nat} {c : Char} {cs ds : List Char} {s : String} {w : UInt64}

/-- The value of digits behind those that gave `acc`. -/
def valueFrom (acc : Nat) (cs : List Char) : Nat :=
  cs.foldl (fun acc c => 10 * acc + digitValue c) acc

theorem valueFrom_cons : valueFrom acc (c :: cs) = valueFrom (10 * acc + digitValue c) cs := by
  rw [valueFrom, valueFrom, List.foldl_cons]

theorem le_valueFrom : acc ≤ valueFrom acc cs := by
  induction cs generalizing acc with
  | nil => exact Nat.le_refl acc
  | cons c cs ih =>
    rw [valueFrom_cons]
    have next : acc ≤ 10 * acc + digitValue c := by omega
    exact Nat.le_trans next ih

@[simp]
theorem value_zeros (k : Nat) (ds : List Char) : value (List.replicate k '0' ++ ds) = value ds := by
  induction k with
  | zero => rfl
  | succ k ih =>
    rw [← ih]
    rfl

/-- The digits read are all that is there, and no overflow is passed over on the way. -/
theorem readDigits_eq_ok_iff (ha : acc < UInt64.size) : readDigits acc cs = .ok n ↔
    (∀ c ∈ cs, c.isDigit = true) ∧ valueFrom acc cs = n ∧ n < UInt64.size := by
  fun_induction readDigits acc cs with
  | case1 acc =>
    constructor
    · rintro ⟨⟩
      exact ⟨by simp, rfl, ha⟩
    · rintro ⟨-, rfl, -⟩
      rfl
  | case2 acc c cs digit next small ih =>
    rw [ih small, valueFrom_cons, List.forall_mem_cons]
    simp only [digit, true_and]
    rfl
  | case3 acc c cs digit next large =>
    have later : next ≤ valueFrom next cs := le_valueFrom
    constructor
    · rintro ⟨⟩
    · rintro ⟨-, rfl, small⟩
      exact absurd (Nat.lt_of_le_of_lt later small) large
  | case4 acc c cs nodigit =>
    constructor
    · rintro ⟨⟩
    · rintro ⟨digits, -, -⟩
      exact absurd (digits c (by simp)) nodigit

/-- The characters spell a number with digits alone, or with a plus sign in front of them. -/
def Counts (cs : List Char) (n : Nat) : Prop :=
  ∃ ds, (cs = ds ∨ cs = '+' :: ds) ∧ ds ≠ [] ∧ (∀ d ∈ ds, d.isDigit = true) ∧ value ds = n

/-- A text without its plus sign. -/
def unsigned : List Char → List Char
  | '+' :: rest => rest
  | cs => cs

theorem unsigned_of_digits (digits : ∀ d ∈ ds, d.isDigit = true) : unsigned ds = ds := by
  unfold unsigned
  split
  · next rest =>
    have plus := digits '+' (by simp)
    simp at plus
  · rfl

theorem counts_iff : Counts cs n ↔
    unsigned cs ≠ [] ∧ (∀ d ∈ unsigned cs, d.isDigit = true) ∧ value (unsigned cs) = n := by
  constructor
  · rintro ⟨ds, rfl | rfl, some, digits, rfl⟩
    · rw [unsigned_of_digits digits]
      exact ⟨some, digits, rfl⟩
    · exact ⟨some, digits, rfl⟩
  · rintro ⟨some, digits, rfl⟩
    refine ⟨unsigned cs, ?_, some, digits, rfl⟩
    unfold unsigned
    split
    · exact .inr rfl
    · exact .inl rfl

theorem readWord_eq (s : String) : readWord s =
    if (unsigned s.toList).isEmpty then .error .badDigit
    else (readDigits 0 (unsigned s.toList)).map UInt64.ofNat :=
  rfl

/-- The texts that are read as a word are those that spell it. -/
theorem readWord_eq_ok_iff : readWord s = .ok w ↔ Counts s.toList w.toNat := by
  rw [readWord_eq, counts_iff]
  cases hds : unsigned s.toList with
  | nil => simp
  | cons d ds =>
    have start : (0 : Nat) < UInt64.size := by decide
    cases hread : readDigits 0 (d :: ds) with
    | ok n =>
      obtain ⟨digits, hn, small⟩ := (readDigits_eq_ok_iff start).1 hread
      have word : (UInt64.ofNat n).toNat = n := UInt64.toNat_ofNat_of_lt small
      have hvalue : value (d :: ds) = n := hn
      constructor
      · rintro ⟨⟩
        exact ⟨by simp, digits, by rw [word, hvalue]⟩
      · rintro ⟨-, -, h⟩
        have : UInt64.ofNat n = w := by
          apply UInt64.toNat_inj.1
          rw [word, ← hvalue, h]
        rw [← this]
        rfl
    | error fault =>
      constructor
      · rintro ⟨⟩
      · rintro ⟨-, digits, h⟩
        have read := (readDigits_eq_ok_iff start).2 ⟨digits, h, w.toNat_lt_size⟩
        rw [hread] at read
        cases read

theorem readDigits_tooLarge (digits : ∀ c ∈ cs, c.isDigit = true) (ha : acc < UInt64.size)
    (large : UInt64.size ≤ valueFrom acc cs) : readDigits acc cs = .error .tooLarge := by
  fun_induction readDigits acc cs with
  | case1 acc => exact absurd ha (Nat.not_lt.2 large)
  | case2 acc c cs _ next small ih =>
    exact ih (fun d hd => digits d (by simp [hd])) small (valueFrom_cons ▸ large)
  | case3 => rfl
  | case4 acc c cs nodigit => exact absurd (digits c (by simp)) nodigit

/-- Digits that spell too large a number are refused as such, and not as bad digits. -/
theorem readWord_tooLarge (h : Counts s.toList n) (large : UInt64.size ≤ n) :
    readWord s = .error .tooLarge := by
  obtain ⟨some, digits, rfl⟩ := counts_iff.1 h
  have start : (0 : Nat) < UInt64.size := by decide
  have nonempty : (unsigned s.toList).isEmpty = false := by simpa using some
  rw [readWord_eq, nonempty, readDigits_tooLarge digits start large]
  rfl

/-! ## Other spellings of numbers -/

inductive Sign
  | absent
  | plus
  | minus

namespace Sign

def chars : Sign → List Char
  | absent => []
  | plus => ['+']
  | minus => ['-']

def factor : Sign → ℚ
  | minus => -1
  | _ => 1

end Sign

/-- A number as it may be written in decimal. There is a point only if digits follow it, and an
exponent only if it has digits. -/
structure Literal where
  sign : Sign
  whole : List Char
  fraction : List Char
  /-- The exponent is behind a capital letter. -/
  capital : Bool
  exponentSign : Sign
  exponent : List Char
  whole_ne_nil : whole ≠ []
  digits : ∀ c ∈ whole ++ fraction ++ exponent, c.isDigit = true

namespace Literal

variable (ℓ : Literal)

/-- The point and the digits behind it. -/
def fractionChars : List Char :=
  if ℓ.fraction = [] then [] else '.' :: ℓ.fraction

def letter : Char :=
  if ℓ.capital then 'E' else 'e'

/-- The exponent with its letter and sign. -/
def exponentChars : List Char :=
  if ℓ.exponent = [] then [] else ℓ.letter :: ℓ.exponentSign.chars ++ ℓ.exponent

/-- The literal as it is written. -/
def chars : List Char :=
  ℓ.sign.chars ++ ℓ.whole ++ ℓ.fractionChars ++ ℓ.exponentChars

/-- The literal as a text. -/
def text : String :=
  String.ofList ℓ.chars

/-- The power of ten that the exponent stands for. -/
def scale : ℚ :=
  match ℓ.exponentSign with
  | .minus => (10 ^ value ℓ.exponent)⁻¹
  | _ => 10 ^ value ℓ.exponent

/-- The number that the literal denotes. -/
def number : ℚ :=
  ℓ.sign.factor * (value ℓ.whole + value ℓ.fraction / 10 ^ ℓ.fraction.length) * ℓ.scale

theorem isDigit_of_mem_whole (h : c ∈ ℓ.whole) : c.isDigit = true :=
  ℓ.digits c (by simp [h])

theorem isDigit_of_mem_fraction (h : c ∈ ℓ.fraction) : c.isDigit = true :=
  ℓ.digits c (by simp [h])

theorem isDigit_of_mem_exponent (h : c ∈ ℓ.exponent) : c.isDigit = true :=
  ℓ.digits c (by simp [h])

end Literal

/-- A spelling with digits and a plus sign only has no other mark in it. -/
theorem Counts.plain (h : Counts cs n) (hc : c ∈ cs) : c = '+' ∨ c.isDigit = true := by
  obtain ⟨ds, rfl | rfl, -, digits, -⟩ := h
  · exact .inr (digits c hc)
  · obtain rfl | hc := List.mem_cons.1 hc
    · exact .inl rfl
    · exact .inr (digits c hc)

/-- A literal that is read as a word is written without a fraction and an exponent. -/
theorem Literal.number_of_counts {ℓ : Literal} (h : Counts ℓ.chars n) : ℓ.number = n := by
  have absent : ∀ c ∈ ℓ.chars, c ≠ '.' ∧ c ≠ 'e' ∧ c ≠ 'E' ∧ c ≠ '-' := by
    intro c hc
    obtain rfl | digit := h.plain hc
    · decide
    · refine ⟨?_, ?_, ?_, ?_⟩ <;>
      · rintro rfl
        simp at digit
  have noFraction : ℓ.fraction = [] := by
    by_contra some
    exact (absent '.' (by simp [chars, fractionChars, some])).1 rfl
  have noExponent : ℓ.exponent = [] := by
    by_contra some
    have := absent ℓ.letter (by simp [chars, exponentChars, some])
    unfold letter at this
    split at this <;> simp at this
  have positive : ℓ.sign ≠ .minus := by
    intro minus
    exact (absent '-' (by simp [chars, minus, Sign.chars])).2.2.2 rfl
  have written : ℓ.chars = ℓ.sign.chars ++ ℓ.whole := by
    simp [chars, fractionChars, exponentChars, noFraction, noExponent]
  have wholeDigits : ∀ d ∈ ℓ.whole, d.isDigit = true := fun d hd => ℓ.isDigit_of_mem_whole hd
  have hwhole : value ℓ.whole = n := by
    rw [written] at h
    obtain ⟨-, -, hvalue⟩ := counts_iff.1 h
    cases hsign : ℓ.sign with
    | absent => simpa [hsign, Sign.chars, unsigned_of_digits wholeDigits] using hvalue
    | plus => simpa [hsign, Sign.chars, unsigned] using hvalue
    | minus => exact absurd hsign positive
  have factor : ℓ.sign.factor = 1 := by
    cases hsign : ℓ.sign with
    | absent | plus => rfl
    | minus => exact absurd hsign positive
  have scale : ℓ.scale = 1 := by
    unfold Literal.scale
    rw [noExponent]
    split <;> simp [value]
  rw [number, factor, scale, noFraction, hwhole]
  simp [value]

/-- A number that is too large for a word is refused, however it is written. -/
theorem readWord_eq_error_of_le {ℓ : Literal} (large : 2 ^ 64 ≤ ℓ.number) :
    ∃ fault, readWord ℓ.text = .error fault := by
  cases hread : readWord ℓ.text with
  | error fault => exact ⟨fault, rfl⟩
  | ok w =>
    have counts : Counts ℓ.chars w.toNat := by
      have := readWord_eq_ok_iff.1 hread
      rwa [Literal.text, String.toList_ofList] at this
    rw [Literal.number_of_counts counts] at large
    have small : (w.toNat : ℚ) < 2 ^ 64 := by
      exact_mod_cast w.toNat_lt
    exact absurd small (not_lt.2 large)

end StatementOutline.Text
