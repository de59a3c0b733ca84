import Mathlib.Data.List.DropRight
import StatementOutline.Json.Reader
import StatementOutline.Proofs.Words
import StatementOutline.Text.Blank

/-!
# How JSON values are spelled

A value may be spelled in many ways: with blanks between its tokens, and with characters of strings
escaped or not. The grammar says which texts spell which value, and every one of them is read.

* `Spells`: the grammar, and `SpelledBy` with the blanks around a value;
* `readCodes_of_codes`, `readNumber_chars`: strings and numbers are read to their end;
* `readValue_of_spells`: values are read, whatever comes behind them;
* `spells_write`: the written form of a value is one of its spellings;
* `parse?_of_spelledBy`: the texts that spell a value are read as that value.
-/

namespace StatementOutline.Json

open Text

/-! ## The grammar -/

/-- The characters are blanks that JSON allows between tokens. -/
def Gap (cs : List Char) : Prop :=
  ∀ c ∈ cs, isGap c = true

/-- Characters between the quotes of a string, and the code points that they name. -/
inductive Codes : List Char → List Nat → Prop
  | nil : Codes [] []
  | plain {c : Char} {cs : List Char} {ns : List Nat} : c ≠ '"' → c ≠ '\\' → 0x20 ≤ c.toNat →
      Codes cs ns → Codes (c :: cs) (c.toNat :: ns)
  | letter {c d : Char} {cs : List Char} {ns : List Nat} : letterEscape? c = some d →
      Codes cs ns → Codes ('\\' :: c :: cs) (d.toNat :: ns)
  | hex {a b c d : Char} {n : Nat} {cs : List Char} {ns : List Nat} :
      hexEscape? a b c d = some n → Codes cs ns →
      Codes ('\\' :: 'u' :: a :: b :: c :: d :: cs) (n :: ns)

/-- The characters are a string with a text; with none if half of a pair stands alone in it. -/
def SpellsText (s : Option String) (cs : List Char) : Prop :=
  ∃ inner ns, Codes inner ns ∧ cs = '"' :: inner ++ ['"'] ∧
    s = (charsOfCodes ns).map String.ofList

/-- The number is written as JSON demands: without a plus sign, and without a zero in front of other
digits. -/
def Proper (ℓ : Literal) : Prop :=
  ℓ.sign ≠ .plus ∧ (ℓ.whole = ['0'] ∨ ℓ.whole.head? ≠ some '0')

mutual
/-- The characters spell the value, from its first one to its last one. -/
inductive Spells : Json → List Char → Prop
  | null : Spells .null ['n', 'u', 'l', 'l']
  | yes : Spells (.bool true) ['t', 'r', 'u', 'e']
  | no : Spells (.bool false) ['f', 'a', 'l', 's', 'e']
  | num {ℓ : Literal} : Proper ℓ → Spells (.num ℓ.text) ℓ.chars
  | str {s : Option String} {cs : List Char} : SpellsText s cs → Spells (.str s) cs
  | noItems {gap : List Char} : Gap gap → Spells (.arr []) ('[' :: gap ++ [']'])
  | arr {vs : List Json} {cs : List Char} : SpellsItems vs cs →
      Spells (.arr vs) ('[' :: cs ++ [']'])
  | noFields {gap : List Char} : Gap gap → Spells (.obj []) ('\x7b' :: gap ++ ['\x7d'])
  | obj {fs : List (Option String × Json)} {cs : List Char} : SpellsFields fs cs →
      Spells (.obj fs) ('\x7b' :: cs ++ ['\x7d'])

/-- The characters spell items with commas between them and blanks around them. -/
inductive SpellsItems : List Json → List Char → Prop
  | last {v : Json} {gap cs gap' : List Char} : Gap gap → Spells v cs → Gap gap' →
      SpellsItems [v] (gap ++ cs ++ gap')
  | more {v : Json} {vs : List Json} {gap cs gap' ds : List Char} : Gap gap → Spells v cs →
      Gap gap' → SpellsItems vs ds → SpellsItems (v :: vs) (gap ++ cs ++ gap' ++ ',' :: ds)

/-- The characters spell fields with commas between them and blanks around them. -/
inductive SpellsFields : List (Option String × Json) → List Char → Prop
  | last {k : Option String} {v : Json} {gap ks colon gap' cs gap'' : List Char} : Gap gap →
      SpellsText k ks → Gap colon → Gap gap' → Spells v cs → Gap gap'' →
      SpellsFields [(k, v)] (gap ++ ks ++ colon ++ ':' :: gap' ++ cs ++ gap'')
  | more {k : Option String} {v : Json} {fs : List (Option String × Json)}
      {gap ks colon gap' cs gap'' ds : List Char} : Gap gap → SpellsText k ks → Gap colon →
      Gap gap' → Spells v cs → Gap gap'' → SpellsFields fs ds →
      SpellsFields ((k, v) :: fs) (gap ++ ks ++ colon ++ ':' :: gap' ++ cs ++ gap'' ++ ',' :: ds)
end

/-- The text spells the value, with blanks around it or not. -/
def SpelledBy (v : Json) (text : String) : Prop :=
  ∃ gap cs gap', text.toList = gap ++ cs ++ gap' ∧ Gap gap ∧ Spells v cs ∧ Gap gap'

variable {c d : Char} {cs ds rest gap : List Char} {ns : List Nat} {s k : Option String} {v : Json}
  {vs : List Json} {fs : List (Option String × Json)} {fuel : Nat} {ℓ : Literal}
  {colon es ks : List Char}

/-! ## Strings -/

theorem letterEscape?_u : letterEscape? 'u' = none := rfl

theorem readCodes_plain (quote : c ≠ '"') (slash : c ≠ '\\') (printed : 0x20 ≤ c.toNat)
    (h : readCodes cs = some (ns, rest)) : readCodes (c :: cs) = some (c.toNat :: ns, rest) := by
  rw [readCodes]
  · simp [slash, Nat.not_lt.2 printed, h]
  all_goals simp_all

theorem readCodes_letter (escape : letterEscape? c = some d)
    (h : readCodes cs = some (ns, rest)) :
    readCodes ('\\' :: c :: cs) = some (d.toNat :: ns, rest) := by
  have other : c ≠ 'u' := by
    rintro rfl
    simp [letterEscape?_u] at escape
  rw [readCodes]
  · simp [escape, h]
  · simp [other]

theorem readCodes_hex {a b c d : Char} {n : Nat} (escape : hexEscape? a b c d = some n)
    (h : readCodes cs = some (ns, rest)) :
    readCodes ('\\' :: 'u' :: a :: b :: c :: d :: cs) = some (n :: ns, rest) := by
  simp [readCodes, escape, h]

/-- The characters of a string are read up to the closing quote. -/
theorem readCodes_of_codes (h : Codes cs ns) (rest : List Char) :
    readCodes (cs ++ '"' :: rest) = some (ns, rest) := by
  induction h with
  | nil => simp [readCodes]
  | plain quote slash printed _ ih => exact readCodes_plain quote slash printed ih
  | letter escape _ ih => exact readCodes_letter escape ih
  | hex escape _ ih => exact readCodes_hex escape ih

/-- A string is read after its opening quote. -/
theorem readString_of_spellsText (h : SpellsText s cs) (rest : List Char) :
    ∃ inner, cs = '"' :: inner ∧ readString (inner ++ rest) = some (s, rest) := by
  obtain ⟨inner, ns, codes, rfl, rfl⟩ := h
  refine ⟨inner ++ ['"'], rfl, ?_⟩
  rw [List.append_assoc, List.singleton_append, readString, readCodes_of_codes codes rest]
  rfl

/-! ## Numbers -/

/-- A number ends in front of these characters. -/
def Ends (rest : List Char) : Prop :=
  ∀ c, rest.head? = some c → c.isDigit = false ∧ c ≠ '.' ∧ c ≠ 'e' ∧ c ≠ 'E'

theorem ends_nil : Ends [] := by
  rintro c ⟨⟩

theorem ends_cons (digit : c.isDigit = false) (others : c ≠ '.' ∧ c ≠ 'e' ∧ c ≠ 'E') :
    Ends (c :: rest) := by
  rintro d ⟨⟩
  exact ⟨digit, others⟩

/-- The digits in front are split off up to a character that is none. -/
theorem spanDigits_append (digits : ∀ d ∈ ds, d.isDigit = true)
    (leaves : ∀ c, rest.head? = some c → c.isDigit = false) :
    spanDigits (ds ++ rest) = (ds, rest) := by
  induction ds with
  | nil =>
    cases rest with
    | nil => rfl
    | cons c rest => simp [spanDigits, leaves c rfl]
  | cons d ds ih =>
    have later := ih fun e he => digits e (by simp [he])
    simp only [spanDigits, Prod.mk.injEq] at later ⊢
    simp [digits d (by simp), later]

/-- What may follow the whole part of a number. -/
theorem leaves_fraction (ℓ : Literal) (ends : Ends rest) :
    ∀ c, (ℓ.fractionChars ++ ℓ.exponentChars ++ rest).head? = some c → c.isDigit = false := by
  intro c hc
  unfold Literal.fractionChars Literal.exponentChars Literal.letter at hc
  split at hc
  · split at hc
    · exact (ends c hc).1
    · obtain rfl : _ = c := Option.some.inj hc
      split <;> rfl
  · obtain rfl : '.' = c := Option.some.inj hc
    rfl

/-- What may follow the fraction of a number. -/
theorem leaves_exponent (ℓ : Literal) (ends : Ends rest) :
    ∀ c, (ℓ.exponentChars ++ rest).head? = some c → c.isDigit = false ∧ c ≠ '.' := by
  intro c hc
  unfold Literal.exponentChars Literal.letter at hc
  split at hc
  · exact ⟨(ends c hc).1, (ends c hc).2.1⟩
  · obtain rfl : _ = c := Option.some.inj hc
    split <;> decide

theorem readWhole_append (proper : Proper ℓ)
    (leaves : ∀ c, rest.head? = some c → c.isDigit = false) :
    readWhole (ℓ.whole ++ rest) = some (ℓ.whole, rest) := by
  have digits : ∀ d ∈ ℓ.whole, d.isDigit = true := fun d hd => ℓ.isDigit_of_mem_whole hd
  obtain ⟨-, zero | nonzero⟩ := proper
  · rw [zero]
    cases rest with
    | nil => rfl
    | cons c rest => simp [readWhole, leaves c rfl]
  · have split := spanDigits_append digits leaves
    cases hwhole : ℓ.whole with
    | nil => exact absurd hwhole ℓ.whole_ne_nil
    | cons d ds =>
      rw [hwhole] at split nonzero
      have other : d ≠ '0' := by simpa using nonzero
      rw [List.cons_append] at split ⊢
      rw [readWhole]
      · rw [split]
      · simp [other]

theorem readFraction_append (ℓ : Literal)
    (leaves : ∀ c, rest.head? = some c → c.isDigit = false ∧ c ≠ '.') :
    readFraction (ℓ.fractionChars ++ rest) = some (ℓ.fractionChars, rest) := by
  unfold Literal.fractionChars
  split
  · cases rest with
    | nil => rfl
    | cons c rest =>
      rw [List.nil_append, readFraction]
      intro tail heq
      exact (leaves c rfl).2 (List.cons.inj heq).1
  · next some =>
    have digits : ∀ d ∈ ℓ.fraction, d.isDigit = true := fun d hd => ℓ.isDigit_of_mem_fraction hd
    rw [List.cons_append, readFraction, spanDigits_append digits fun c hc => (leaves c hc).1]
    cases hfraction : ℓ.fraction with
    | nil => exact absurd hfraction some
    | cons d ds => rfl

theorem spanSign_append {sign : Sign} (digits : ∀ d ∈ ds, d.isDigit = true) (some : ds ≠ []) :
    spanSign (sign.chars ++ ds ++ rest) = (sign.chars, ds ++ rest) := by
  cases sign with
  | plus | minus => rfl
  | absent =>
    cases ds with
    | nil => exact absurd rfl some
    | cons d ds =>
      have digit := digits d (by simp)
      unfold spanSign
      split
      · next heq =>
        obtain ⟨rfl, -⟩ := List.cons.inj heq
        cases digit
      · next heq =>
        obtain ⟨rfl, -⟩ := List.cons.inj heq
        cases digit
      · rfl

theorem readExponent_append (ℓ : Literal) (ends : Ends rest) :
    readExponent (ℓ.exponentChars ++ rest) = some (ℓ.exponentChars, rest) := by
  unfold Literal.exponentChars
  split
  · cases rest with
    | nil => rfl
    | cons c rest =>
      have other := ends c rfl
      rw [List.nil_append, readExponent, if_neg (by simp [other])]
  · next some =>
    have letter : ℓ.letter = 'e' ∨ ℓ.letter = 'E' := by
      unfold Literal.letter
      split <;> simp
    have digits : ∀ d ∈ ℓ.exponent, d.isDigit = true := fun d hd => ℓ.isDigit_of_mem_exponent hd
    have split := spanDigits_append digits fun c hc => (ends c hc).1
    rw [List.cons_append, List.cons_append, readExponent, if_pos letter,
      spanSign_append digits some]
    dsimp only
    rw [split]
    cases hexponent : ℓ.exponent with
    | nil => exact absurd hexponent some
    | cons d ds => rfl

/-- Reads a number behind its sign. -/
def readUnsigned (cs : List Char) : Option (List Char × List Char) := do
  let (whole, cs) ← readWhole cs
  let (fraction, cs) ← readFraction cs
  let (exponent, cs) ← readExponent cs
  return (whole ++ fraction ++ exponent, cs)

theorem readUnsigned_append (proper : Proper ℓ) (ends : Ends rest) :
    readUnsigned (ℓ.whole ++ (ℓ.fractionChars ++ ℓ.exponentChars ++ rest)) =
      some (ℓ.whole ++ ℓ.fractionChars ++ ℓ.exponentChars, rest) := by
  have whole := readWhole_append proper (leaves_fraction ℓ ends)
  have fraction := readFraction_append ℓ (leaves_exponent ℓ ends)
  have exponent := readExponent_append ℓ ends
  rw [← List.append_assoc] at fraction
  simp only [readUnsigned, whole, fraction, exponent, Option.bind_eq_bind, Option.bind_some,
    Option.pure_def]

theorem readNumber_minus (cs : List Char) : readNumber ('-' :: cs) =
    (readUnsigned cs).map fun (ds, rest) => (String.ofList ('-' :: ds), rest) := by
  simp [readNumber, readUnsigned]

/-- A number without a sign is not taken for one with a minus sign. -/
theorem readNumber_of_digit (digit : d.isDigit = true) (cs : List Char) : readNumber (d :: cs) =
    (readUnsigned (d :: cs)).map fun (ds, rest) => (String.ofList ds, rest) := by
  have other : d ≠ '-' := by
    rintro rfl
    cases digit
  simp [readNumber, readUnsigned, other]

/-- A number is read to its end and its literal is kept. -/
theorem readNumber_chars (proper : Proper ℓ) (ends : Ends rest) :
    readNumber (ℓ.chars ++ rest) = some (ℓ.text, rest) := by
  have read := readUnsigned_append proper ends
  rw [Literal.text]
  cases hsign : ℓ.sign with
  | plus => exact absurd hsign proper.1
  | absent =>
    have written : ℓ.chars = ℓ.whole ++ ℓ.fractionChars ++ ℓ.exponentChars := by
      simp [Literal.chars, hsign, Sign.chars]
    obtain ⟨d, ds, hwhole⟩ := List.exists_cons_of_ne_nil ℓ.whole_ne_nil
    have digit : d.isDigit = true := ℓ.isDigit_of_mem_whole (by simp [hwhole])
    rw [written]
    rw [hwhole] at read ⊢
    simp only [List.cons_append, List.append_assoc] at read ⊢
    rw [readNumber_of_digit digit, read]
    rfl
  | minus =>
    have written : ℓ.chars = '-' :: (ℓ.whole ++ ℓ.fractionChars ++ ℓ.exponentChars) := by
      simp [Literal.chars, hsign, Sign.chars]
    simp only [List.append_assoc] at read
    rw [written, List.cons_append, List.append_assoc, List.append_assoc, readNumber_minus, read]
    simp

/-! ## Blanks -/

theorem isGap_iff : isGap c = true ↔ c = ' ' ∨ c = '\t' ∨ c = '\n' ∨ c = '\r' := by
  simp [isGap, or_assoc]

theorem skipGap_append (h : Gap gap) (cs : List Char) : skipGap (gap ++ cs) = skipGap cs :=
  dropWhile_append_of_all h

theorem skipGap_cons (h : isGap c = false) (cs : List Char) : skipGap (c :: cs) = c :: cs :=
  List.dropWhile_cons_of_neg (by simp [h])

theorem isGap_of_isDigit (digit : c.isDigit = true) : isGap c = false := by
  rw [Bool.eq_false_iff]
  intro blank
  obtain rfl | rfl | rfl | rfl := isGap_iff.1 blank <;> cases digit

theorem ends_gap (h : Gap gap) (ends : Ends rest) : Ends (gap ++ rest) := by
  cases gap with
  | nil => exact ends
  | cons c gap =>
    have blank : isGap c = true := h c (by simp)
    obtain rfl | rfl | rfl | rfl := isGap_iff.1 blank <;> exact ends_cons rfl (by decide)

theorem skipGap_skipGap (cs : List Char) : skipGap (skipGap cs) = skipGap cs :=
  List.dropWhile_idempotent isGap cs

/-- Blanks in front of a value do not matter. -/
theorem readValue_congr (h : skipGap cs = skipGap ds) (fuel : Nat) :
    readValue fuel cs = readValue fuel ds := by
  cases fuel with
  | zero => rw [readValue, readValue]
  | succ fuel => rw [readValue, readValue, h]

theorem readItems_congr (h : skipGap cs = skipGap ds) (fuel : Nat) :
    readItems fuel cs = readItems fuel ds := by
  cases fuel with
  | zero => rw [readItems, readItems]
  | succ fuel => rw [readItems, readItems, readValue_congr h]

theorem readFields_congr (h : skipGap cs = skipGap ds) (fuel : Nat) :
    readFields fuel cs = readFields fuel ds := by
  cases fuel with
  | zero => rw [readFields, readFields]
  | succ fuel => rw [readFields, readFields, h]

/-! ## Values -/

theorem chars_start (proper : Proper ℓ) :
    ∃ c tail, ℓ.chars = c :: tail ∧ (c = '-' ∨ c.isDigit = true) := by
  obtain ⟨d, ds, hwhole⟩ := List.exists_cons_of_ne_nil ℓ.whole_ne_nil
  have digit : d.isDigit = true := ℓ.isDigit_of_mem_whole (by simp [hwhole])
  cases hsign : ℓ.sign with
  | plus => exact absurd hsign proper.1
  | minus => exact ⟨'-', _, by simp [Literal.chars, hsign, Sign.chars]; rfl, .inl rfl⟩
  | absent => exact ⟨d, _, by simp [Literal.chars, hsign, Sign.chars, hwhole]; rfl, .inr digit⟩

theorem isGap_of_number (start : c = '-' ∨ c.isDigit = true) : isGap c = false ∧ c ≠ ']' := by
  obtain rfl | digit := start
  · decide
  · refine ⟨isGap_of_isDigit digit, ?_⟩
    rintro rfl
    cases digit

/-- A value starts with a character that is neither a blank nor the end of an array. -/
theorem Spells.start (h : Spells v cs) :
    ∃ c tail, cs = c :: tail ∧ isGap c = false ∧ c ≠ ']' := by
  cases h with
  | null | yes | no | noItems | arr | noFields | obj => exact ⟨_, _, rfl, rfl, by decide⟩
  | str text =>
    obtain ⟨inner, rfl, -⟩ := readString_of_spellsText text []
    exact ⟨_, _, rfl, rfl, by decide⟩
  | @num ℓ proper =>
    obtain ⟨c, tail, hchars, start⟩ := chars_start proper
    exact ⟨c, tail, hchars, isGap_of_number start⟩

theorem readValue_number (start : c = '-' ∨ c.isDigit = true) :
    readValue (fuel + 1) (c :: cs) =
      (readNumber (c :: cs)).map fun (literal, rest) => (.num literal, rest) := by
  rw [readValue, skipGap_cons (isGap_of_number start).1]
  split
  case h_7 => rfl
  all_goals
    next heq =>
    obtain ⟨rfl, -⟩ := List.cons.inj heq
    obtain start | start := start <;> cases start

theorem readValue_string (h : readString cs = some (s, rest)) :
    readValue (fuel + 1) ('"' :: cs) = some (.str s, rest) := by
  have quote : skipGap ('"' :: cs) = '"' :: cs := rfl
  simp only [readValue, quote, h, Option.map_some]

theorem readValue_noItems (h : skipGap cs = ']' :: rest) :
    readValue (fuel + 1) ('[' :: cs) = some (.arr [], rest) := by
  have bracket : skipGap ('[' :: cs) = '[' :: cs := rfl
  simp only [readValue, bracket, h]

theorem readValue_items (start : (skipGap cs).head? ≠ some ']')
    (h : readItems fuel cs = some (vs, rest)) :
    readValue (fuel + 1) ('[' :: cs) = some (.arr vs, rest) := by
  have bracket : skipGap ('[' :: cs) = '[' :: cs := rfl
  simp only [readValue, bracket]
  split
  · next heq =>
    rw [heq] at start
    exact absurd rfl start
  · rw [readItems_congr (skipGap_skipGap cs), h, Option.map_some]

theorem readValue_noFields (h : skipGap cs = '\x7d' :: rest) :
    readValue (fuel + 1) ('\x7b' :: cs) = some (.obj [], rest) := by
  have brace : skipGap ('\x7b' :: cs) = '\x7b' :: cs := rfl
  simp only [readValue, brace, h]

theorem readValue_fields (start : (skipGap cs).head? ≠ some '\x7d')
    (h : readFields fuel cs = some (fs, rest)) :
    readValue (fuel + 1) ('\x7b' :: cs) = some (.obj fs, rest) := by
  have brace : skipGap ('\x7b' :: cs) = '\x7b' :: cs := rfl
  simp only [readValue, brace]
  split
  · next heq =>
    rw [heq] at start
    exact absurd rfl start
  · rw [readFields_congr (skipGap_skipGap cs), h, Option.map_some]

theorem readItems_last (h : readValue fuel cs = some (v, gap ++ ']' :: rest)) (blank : Gap gap) :
    readItems (fuel + 1) cs = some ([v], rest) := by
  have close : skipGap (gap ++ ']' :: rest) = ']' :: rest := skipGap_append blank _
  simp [readItems, h, close]

theorem readItems_more (h : readValue fuel cs = some (v, gap ++ ',' :: ds)) (blank : Gap gap)
    (more : readItems fuel ds = some (vs, rest)) :
    readItems (fuel + 1) cs = some (v :: vs, rest) := by
  have comma : skipGap (gap ++ ',' :: ds) = ',' :: ds := skipGap_append blank _
  simp [readItems, h, comma, more]

theorem readFields_last (key : readString ds = some (k, colon ++ ':' :: cs)) (before : Gap colon)
    (h : readValue fuel cs = some (v, gap ++ '\x7d' :: rest)) (blank : Gap gap) :
    readFields (fuel + 1) ('"' :: ds) = some ([(k, v)], rest) := by
  have quote : skipGap ('"' :: ds) = '"' :: ds := rfl
  have mid : skipGap (colon ++ ':' :: cs) = ':' :: cs := skipGap_append before _
  have close : skipGap (gap ++ '\x7d' :: rest) = '\x7d' :: rest := skipGap_append blank _
  simp [readFields, quote, key, mid, h, close]

theorem readFields_more (key : readString ds = some (k, colon ++ ':' :: cs)) (before : Gap colon)
    (h : readValue fuel cs = some (v, gap ++ ',' :: es)) (blank : Gap gap)
    (more : readFields fuel es = some (fs, rest)) :
    readFields (fuel + 1) ('"' :: ds) = some ((k, v) :: fs, rest) := by
  have quote : skipGap ('"' :: ds) = '"' :: ds := rfl
  have mid : skipGap (colon ++ ':' :: cs) = ':' :: cs := skipGap_append before _
  have comma : skipGap (gap ++ ',' :: es) = ',' :: es := skipGap_append blank _
  simp [readFields, quote, key, mid, h, comma, more]

/-- Items do not start with the end of the array. -/
theorem SpellsItems.start (h : SpellsItems vs cs) (rest : List Char) :
    (skipGap (cs ++ rest)).head? ≠ some ']' := by
  cases h with
  | last blank value =>
    obtain ⟨c, tail, rfl, unblank, other⟩ := value.start
    simp [skipGap_append blank, skipGap_cons unblank, other]
  | more blank value =>
    obtain ⟨c, tail, rfl, unblank, other⟩ := value.start
    simp [skipGap_append blank, skipGap_cons unblank, other]

/-- Fields start with a quote. -/
theorem SpellsFields.start (h : SpellsFields fs cs) (rest : List Char) :
    (skipGap (cs ++ rest)).head? ≠ some '\x7d' := by
  have quote : isGap '"' = false := rfl
  cases h with
  | last blank key =>
    obtain ⟨inner, rfl, -⟩ := readString_of_spellsText key []
    simp [skipGap_append blank, skipGap_cons quote]
  | more blank key =>
    obtain ⟨inner, rfl, -⟩ := readString_of_spellsText key []
    simp [skipGap_append blank, skipGap_cons quote]

theorem Spells.length_pos (h : Spells v cs) : 0 < cs.length := by
  obtain ⟨c, tail, rfl, -⟩ := h.start
  exact Nat.succ_pos _

mutual
/-- A value is read up to its end. The recursion takes one level for the value and two for each
bracket, so twice the length is enough for it. -/
theorem readValue_of_spells : ∀ {v : Json} {cs : List Char}, Spells v cs →
    ∀ {rest : List Char} {fuel : Nat}, Ends rest → 2 * cs.length ≤ fuel + 1 →
      readValue (fuel + 1) (cs ++ rest) = some (v, rest)
  | _, _, .null, _, _, _, _ => rfl
  | _, _, .yes, _, _, _, _ => rfl
  | _, _, .no, _, _, _, _ => rfl
  | _, _, .num proper, _, _, ends, _ => by
    obtain ⟨c, tail, hchars, start⟩ := chars_start proper
    have read := readNumber_chars proper ends
    rw [hchars, List.cons_append] at read ⊢
    rw [readValue_number start, read]
    rfl
  | _, _, .str text, rest, _, _, _ => by
    obtain ⟨inner, rfl, read⟩ := readString_of_spellsText text rest
    exact readValue_string read
  | _, _, .noItems blank, rest, _, _, _ => by
    rw [List.cons_append, List.cons_append, List.append_assoc]
    exact readValue_noItems (skipGap_append blank (']' :: rest))
  | _, _, @Spells.arr vs cs items, rest, fuel, _, enough => by
    rw [List.cons_append, List.cons_append, List.append_assoc]
    have enough' : 2 * cs.length + 1 ≤ fuel := by
      simp only [List.length_append, List.length_cons, List.length_nil] at enough
      omega
    exact readValue_items (items.start _) (readItems_of_spells items enough')
  | _, _, .noFields blank, rest, _, _, _ => by
    rw [List.cons_append, List.cons_append, List.append_assoc]
    exact readValue_noFields (skipGap_append blank ('\x7d' :: rest))
  | _, _, @Spells.obj fs cs fields, rest, fuel, _, enough => by
    rw [List.cons_append, List.cons_append, List.append_assoc]
    have enough' : 2 * cs.length + 1 ≤ fuel := by
      simp only [List.length_append, List.length_cons, List.length_nil] at enough
      omega
    exact readValue_fields (fields.start _) (readFields_of_spells fields enough')

theorem readItems_of_spells : ∀ {vs : List Json} {cs : List Char}, SpellsItems vs cs →
    ∀ {rest : List Char} {fuel : Nat}, 2 * cs.length + 1 ≤ fuel →
      readItems fuel (cs ++ ']' :: rest) = some (vs, rest)
  | _, _, .last blank value blank', rest, fuel, enough => by
    have some := value.length_pos
    simp only [List.length_append] at enough
    obtain ⟨fuel, rfl⟩ : ∃ f, fuel = f + 2 := ⟨fuel - 2, by omega⟩
    have ends : Ends (']' :: rest) := ends_cons rfl (by decide)
    rw [List.append_assoc, List.append_assoc]
    refine readItems_last ?_ blank'
    rw [readValue_congr (skipGap_append blank _)]
    exact readValue_of_spells value (ends_gap blank' ends) (by omega)
  | _, _, @SpellsItems.more _ _ _ _ _ ds blank value blank' more, rest, fuel, enough => by
    have some := value.length_pos
    simp only [List.length_append, List.length_cons] at enough
    obtain ⟨fuel, rfl⟩ : ∃ f, fuel = f + 2 := ⟨fuel - 2, by omega⟩
    have ends : Ends (',' :: (ds ++ ']' :: rest)) := ends_cons rfl (by decide)
    rw [List.append_assoc, List.append_assoc, List.append_assoc, List.cons_append]
    refine readItems_more ?_ blank' (readItems_of_spells more (by omega))
    rw [readValue_congr (skipGap_append blank _)]
    exact readValue_of_spells value (ends_gap blank' ends) (by omega)

theorem readFields_of_spells : ∀ {fs : List (Option String × Json)} {cs : List Char},
    SpellsFields fs cs → ∀ {rest : List Char} {fuel : Nat}, 2 * cs.length + 1 ≤ fuel →
      readFields fuel (cs ++ '\x7d' :: rest) = some (fs, rest)
  | _, _, .last blank key before blank' value blank'', rest, fuel, enough => by
    have some := value.length_pos
    simp only [List.length_append, List.length_cons] at enough
    obtain ⟨fuel, rfl⟩ : ∃ f, fuel = f + 2 := ⟨fuel - 2, by omega⟩
    have ends : Ends ('\x7d' :: rest) := ends_cons rfl (by decide)
    obtain ⟨inner, rfl, read⟩ := readString_of_spellsText key _
    simp only [List.append_assoc, List.cons_append]
    rw [readFields_congr (skipGap_append blank _)]
    refine readFields_last read before ?_ blank''
    rw [readValue_congr (skipGap_append blank' _)]
    exact readValue_of_spells value (ends_gap blank'' ends) (by omega)
  | _, _, @SpellsFields.more _ _ _ _ _ _ _ _ _ ds blank key before blank' value blank'' more,
      rest, fuel, enough => by
    have some := value.length_pos
    simp only [List.length_append, List.length_cons] at enough
    obtain ⟨fuel, rfl⟩ : ∃ f, fuel = f + 2 := ⟨fuel - 2, by omega⟩
    have ends : Ends (',' :: (ds ++ '\x7d' :: rest)) := ends_cons rfl (by decide)
    obtain ⟨inner, rfl, read⟩ := readString_of_spellsText key _
    simp only [List.append_assoc, List.cons_append]
    rw [readFields_congr (skipGap_append blank _)]
    refine readFields_more read before ?_ blank'' (readFields_of_spells more (by omega))
    rw [readValue_congr (skipGap_append blank' _)]
    exact readValue_of_spells value (ends_gap blank'' ends) (by omega)
end

/-- The texts that spell a value are read as that value. -/
theorem parse?_of_spelledBy {text : String} (h : SpelledBy v text) : parse? text = some v := by
  obtain ⟨gap, cs, gap', htext, blank, spells, blank'⟩ := h
  have ends : Ends gap' := by simpa using ends_gap blank' ends_nil
  have enough : 2 * cs.length ≤ 2 * text.toList.length + 1 + 1 := by
    simp only [htext, List.length_append]
    omega
  have read := readValue_of_spells spells ends enough
  rw [← readValue_congr (skipGap_append blank _), ← List.append_assoc, ← htext] at read
  have finished : skipGap gap' = [] := List.dropWhile_eq_nil_iff.2 blank'
  simp [parse?, read, finished]

/-! ## The written form -/

theorem digits_of_lt {n : Nat} (h : n < 16) : digits 16 n = [Nat.digitChar n] := by
  rw [digits, if_pos (.inl h)]

theorem digits_of_le {n : Nat} (h : 16 ≤ n) :
    digits 16 n = digits 16 (n / 16) ++ [Nat.digitChar (n % 16)] := by
  rw [digits, if_neg (by omega)]

/-- The last digit of a number that is padded with zeros to at least two digits. -/
theorem pad_digits (k n : Nat) :
    List.replicate (k + 2 - (digits 16 n).length) '0' ++ digits 16 n =
      List.replicate (k + 1 - (digits 16 (n / 16)).length) '0' ++ digits 16 (n / 16) ++
        [Nat.digitChar (n % 16)] := by
  by_cases h : n < 16
  · have quotient : n / 16 = 0 := by omega
    have remainder : n % 16 = n := by omega
    have zero : digits 16 0 = ['0'] := digits_of_lt (by decide)
    rw [quotient, remainder, digits_of_lt h, zero]
    exact congrArg (· ++ [Nat.digitChar n]) List.replicate_succ'
  · rw [digits_of_le (by omega), List.length_append, List.append_assoc]
    simp

/-- A code point of four digits is escaped by these. -/
theorem unicodeEscape_eq {n : Nat} (h : n < 0x10000) :
    unicodeEscape n = ['\\', 'u', Nat.digitChar (n / 4096), Nat.digitChar (n / 256 % 16),
      Nat.digitChar (n / 16 % 16), Nat.digitChar (n % 16)] := by
  have first : digits 16 (n / 16 / 16 / 16) = [Nat.digitChar (n / 4096)] := by
    rw [Nat.div_div_eq_div_mul, Nat.div_div_eq_div_mul, digits_of_lt (by omega)]
  have second : n / 16 / 16 = n / 256 := Nat.div_div_eq_div_mul n 16 16
  have padded : List.replicate (4 - (digits 16 n).length) '0' ++ digits 16 n =
      [Nat.digitChar (n / 4096), Nat.digitChar (n / 256 % 16), Nat.digitChar (n / 16 % 16),
        Nat.digitChar (n % 16)] := by
    rw [pad_digits 2, pad_digits 1, pad_digits 0, first, second]
    rfl
  rw [unicodeEscape, List.cons_append, List.cons_append, padded]

theorem hexValue?_digitChar {n : Nat} (h : n < 16) : hexValue? (Nat.digitChar n) = some n := by
  revert n
  decide

/-- An escaped code point is read back. -/
theorem codes_unicodeEscape {n : Nat} (h : n < 0x10000) : Codes (unicodeEscape n) [n] := by
  rw [unicodeEscape_eq h]
  refine .hex ?_ .nil
  have first : n / 4096 < 16 := by omega
  have value : ((n / 4096 * 16 + n / 256 % 16) * 16 + n / 16 % 16) * 16 + n % 16 = n := by omega
  simp [hexEscape?, hexValue?_digitChar, first, Nat.mod_lt, value]

theorem Codes.append {ms : List Nat} (h : Codes cs ns) (h' : Codes ds ms) :
    Codes (cs ++ ds) (ns ++ ms) := by
  induction h with
  | nil => exact h'
  | plain quote slash printed _ ih => exact .plain quote slash printed ih
  | letter escape _ ih => exact .letter escape ih
  | hex escape _ ih => exact .hex escape ih

theorem codes_escape (c : Char) : Codes (escape c) [c.toNat] := by
  unfold escape
  split
  · next quote =>
    rw [quote]
    exact .letter rfl .nil
  · split
    · next slash =>
      rw [slash]
      exact .letter rfl .nil
    · split
      · exact codes_unicodeEscape (by omega)
      · next quote slash printed => exact .plain quote slash (Nat.not_lt.1 printed) .nil

theorem codes_flatMap_escape (cs : List Char) :
    Codes (cs.flatMap escape) (cs.map Char.toNat) := by
  induction cs with
  | nil => exact .nil
  | cons c cs ih => exact (codes_escape c).append ih

/-- No character is half of a surrogate pair. -/
theorem not_surrogate (c : Char) : isLeading c.toNat = false ∧ isTrailing c.toNat = false := by
  have valid : c.toNat < 0xd800 ∨ 0xdfff < c.toNat ∧ c.toNat < 0x110000 := c.valid
  simp only [isLeading, isTrailing, Bool.and_eq_false_iff, decide_eq_false_iff_not]
  omega

theorem charsOfCodes_map (cs : List Char) : charsOfCodes (cs.map Char.toNat) = some cs := by
  induction cs with
  | nil => rfl
  | cons c cs ih =>
    obtain ⟨leading, trailing⟩ := not_surrogate c
    cases cs with
    | nil => simp [charsOfCodes, leading, trailing]
    | cons d cs =>
      rw [List.map_cons] at ih
      simp [charsOfCodes, leading, trailing, ih]

theorem spellsText_writeString (s : Option String) : SpellsText s (writeString s) := by
  cases s with
  | some s =>
    refine ⟨_, _, codes_flatMap_escape s.toList, rfl, ?_⟩
    rw [charsOfCodes_map, Option.map_some, String.ofList_toList]
  | none => exact ⟨_, _, codes_unicodeEscape (by decide), rfl, rfl⟩

mutual
/-- Every number in the value is one that JSON can spell. -/
def Writable : Json → Prop
  | .num literal => ∃ ℓ, Proper ℓ ∧ literal = ℓ.text
  | .arr vs => WritableItems vs
  | .obj fs => WritableFields fs
  | _ => True

def WritableItems : List Json → Prop
  | [] => True
  | v :: vs => v.Writable ∧ WritableItems vs

def WritableFields : List (Option String × Json) → Prop
  | [] => True
  | (_, v) :: fs => v.Writable ∧ WritableFields fs
end

theorem gap_nil : Gap [] := by
  rintro c ⟨⟩

theorem gap_singleton {c : Char} (h : isGap c = true) : Gap [c] := by
  intro d hd
  rw [List.mem_singleton.1 hd, h]

/-- What is written behind an item or a field: nothing, or a comma and the others. -/
def Behind {α : Type} (Spelled : List α → List Char → Prop) (others : List α) (cs : List Char) :
    Prop :=
  others = [] ∧ cs = [] ∨ ∃ ds, cs = ',' :: ds ∧ Spelled others ds

/-- The first item of an array in front of those that are written after it. -/
theorem Spells.items (h : Spells v cs) (more : Behind SpellsItems vs ds) :
    SpellsItems (v :: vs) (cs ++ ds) := by
  obtain ⟨rfl, rfl⟩ | ⟨es, rfl, items⟩ := more
  · exact .last gap_nil h gap_nil
  · simpa using SpellsItems.more gap_nil h gap_nil items

/-- The first field of an object in front of those that are written after it. -/
theorem Spells.fields (h : Spells v cs) (key : SpellsText k ks) (more : Behind SpellsFields fs ds) :
    SpellsFields ((k, v) :: fs) (ks ++ ':' :: cs ++ ds) := by
  obtain ⟨rfl, rfl⟩ | ⟨es, rfl, fields⟩ := more
  · simpa using SpellsFields.last gap_nil key gap_nil gap_nil h gap_nil
  · simpa using SpellsFields.more gap_nil key gap_nil gap_nil h gap_nil fields

mutual
/-- The written form of a value spells it. -/
theorem spells_write : ∀ (v : Json) (rest : List Char), v.Writable →
    ∃ cs, write v rest = cs ++ rest ∧ Spells v cs
  | .null, _, _ => ⟨_, rfl, .null⟩
  | .bool true, _, _ => ⟨_, rfl, .yes⟩
  | .bool false, _, _ => ⟨_, rfl, .no⟩
  | .num _, _, ⟨ℓ, proper, h⟩ => by
    rw [h]
    exact ⟨_, by rw [write, Literal.text, String.toList_ofList], .num proper⟩
  | .str s, _, _ => ⟨_, rfl, .str (spellsText_writeString s)⟩
  | .arr [], _, _ => ⟨_, rfl, .noItems gap_nil⟩
  | .arr (v :: vs), rest, h => by
    obtain ⟨ds, hds, more⟩ := spells_writeItems vs rest h.2
    obtain ⟨cs, hcs, value⟩ := spells_write v (writeItems vs rest) h.1
    exact ⟨_, by rw [write, hcs, hds]; simp, .arr (value.items more)⟩
  | .obj [], _, _ => ⟨_, rfl, .noFields gap_nil⟩
  | .obj ((k, v) :: fs), rest, h => by
    obtain ⟨ds, hds, more⟩ := spells_writeFields fs rest h.2
    obtain ⟨cs, hcs, value⟩ := spells_write v (writeFields fs rest) h.1
    exact ⟨_, by rw [write, hcs, hds]; simp, .obj (value.fields (spellsText_writeString k) more)⟩

theorem spells_writeItems : ∀ (vs : List Json) (rest : List Char), WritableItems vs →
    ∃ ds, writeItems vs rest = ds ++ ']' :: rest ∧ Behind SpellsItems vs ds
  | [], _, _ => ⟨[], rfl, .inl ⟨rfl, rfl⟩⟩
  | v :: vs, rest, h => by
    obtain ⟨ds, hds, more⟩ := spells_writeItems vs rest h.2
    obtain ⟨cs, hcs, value⟩ := spells_write v (writeItems vs rest) h.1
    exact ⟨_, by rw [writeItems, hcs, hds]; simp, .inr ⟨_, rfl, value.items more⟩⟩

theorem spells_writeFields : ∀ (fs : List (Option String × Json)) (rest : List Char),
    WritableFields fs →
      ∃ ds, writeFields fs rest = ds ++ '\x7d' :: rest ∧ Behind SpellsFields fs ds
  | [], _, _ => ⟨[], rfl, .inl ⟨rfl, rfl⟩⟩
  | (k, v) :: fs, rest, h => by
    obtain ⟨ds, hds, more⟩ := spells_writeFields fs rest h.2
    obtain ⟨cs, hcs, value⟩ := spells_write v (writeFields fs rest) h.1
    exact ⟨_, by rw [writeFields, hcs, hds]; simp,
      .inr ⟨_, rfl, value.fields (spellsText_writeString k) more⟩⟩
end

theorem spelledBy_render (h : v.Writable) : SpelledBy v v.render := by
  obtain ⟨cs, hcs, spells⟩ := spells_write v [] h
  refine ⟨[], cs, [], ?_, gap_nil, spells, gap_nil⟩
  rw [render, String.toList_ofList, hcs, List.nil_append]

end StatementOutline.Json
