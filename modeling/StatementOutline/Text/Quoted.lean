import StatementOutline.Text.Extending
import StatementOutline.Text.Ignorable
import StatementOutline.Text.Numeral
import StatementOutline.Text.Unprintable

/-!
# Quoted text

A text in double quotes on one line: quotes, backslashes and the common control characters are
escaped by a letter, and every character that could not be told by its looks is written by its code
point: those that are unprintable, that join the character before them, or that show as nothing.
`not_mem_quote` says that a quoted text never breaks the line.
-/

namespace StatementOutline.Text

/-- A character written by its code point. -/
def codePoint (c : Char) : List Char :=
  ['\\', 'u', '\x7b'] ++ digits 16 c.toNat ++ ['\x7d']

/-- Whether a character can be told by its looks. -/
def isPlain (c : Char) : Bool :=
  isPrintable c && !isExtending c && !isIgnorable c

/-- One character inside the quotes. -/
def quoteChar (c : Char) : List Char :=
  match c with
  | '\x00' => ['\\', '0']
  | '\t' => ['\\', 't']
  | '\r' => ['\\', 'r']
  | '\n' => ['\\', 'n']
  | '"' => ['\\', '"']
  | '\\' => ['\\', '\\']
  | c => if isPlain c then [c] else codePoint c

/-- A text in double quotes. -/
def quote (cs : List Char) : List Char :=
  '"' :: cs.flatMap quoteChar ++ ['"']

/-- The characters at which a line may end. -/
def lineBreaks : List Char :=
  ['\n', '\x0b', '\x0c', '\r', '\x85', '\u2028', '\u2029']

/-- The characters of which escapes consist, digits excepted. -/
def marks : List Char :=
  ['"', '\\', '\x7b', '\x7d', '0', 't', 'r', 'n', 'u']

variable {b : Char}

theorem not_mem_marks (hb : b ∈ lineBreaks) : b ∉ marks := by
  have apart : lineBreaks.all (fun b => !marks.contains b) = true := by decide
  simpa using List.all_eq_true.1 apart b hb

/-- No line break can be told by its looks. -/
theorem isPlain_eq_false (hb : b ∈ lineBreaks) : isPlain b = false := by
  have unprintable : lineBreaks.all (fun b => !isPlain b) = true := by decide +kernel
  simpa using List.all_eq_true.1 unprintable b hb

theorem not_mem_codePoint (hb : b ∈ lineBreaks) (c : Char) : b ∉ codePoint c := by
  have apart : lineBreaks.all (fun b => !(['0', '1', '2', '3', '4', '5', '6', '7', '8', '9', 'a',
      'b', 'c', 'd', 'e', 'f'].contains b)) = true := by decide
  have no_digit := List.all_eq_true.1 apart b hb
  have hdigits : b ∉ digits 16 c.toNat := by
    intro h
    simp [mem_digits (by omega) (by omega) h] at no_digit
  have hmarks := not_mem_marks hb
  simp only [marks, List.mem_cons, List.not_mem_nil, or_false, not_or] at hmarks
  simp [codePoint, hdigits, hmarks]

theorem not_mem_quoteChar (hb : b ∈ lineBreaks) (c : Char) : b ∉ quoteChar c := by
  have hmarks := not_mem_marks hb
  simp only [marks, List.mem_cons, List.not_mem_nil, or_false, not_or] at hmarks
  unfold quoteChar
  split
  iterate 6 · simp [hmarks]
  · split
    · next plain =>
      intro h
      rw [← List.mem_singleton.1 h, isPlain_eq_false hb] at plain
      cases plain
    · exact not_mem_codePoint hb c

/-- A quoted text stays on its line. -/
theorem not_mem_quote (hb : b ∈ lineBreaks) (cs : List Char) : b ∉ quote cs := by
  have no_quote : b ≠ '"' := by
    rintro rfl
    exact not_mem_marks hb (List.mem_cons_self ..)
  simp [quote, not_mem_quoteChar hb, no_quote]

end StatementOutline.Text
