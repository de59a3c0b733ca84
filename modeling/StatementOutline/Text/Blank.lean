import StatementOutline.Text.CharRange

/-!
# White space

The blank characters are those with the Unicode property White_Space. `trim` removes them from
both ends of a text; `trimStart_pad` and `trimEnd_pad` say that padding added on a side is removed
again.
-/

namespace StatementOutline.Text

/-- The characters with the property White_Space. -/
def blankRanges : List CharRange :=
  [⟨0x9, 0xd⟩, ⟨0x20, 0x20⟩, ⟨0x85, 0x85⟩, ⟨0xa0, 0xa0⟩, ⟨0x1680, 0x1680⟩, ⟨0x2000, 0x200a⟩,
   ⟨0x2028, 0x2029⟩, ⟨0x202f, 0x202f⟩, ⟨0x205f, 0x205f⟩, ⟨0x3000, 0x3000⟩]

/-- Whether a character is white space. -/
def isBlank (c : Char) : Bool :=
  CharRange.mem blankRanges c

/-- The text without the white space in front. -/
def trimStart (cs : List Char) : List Char :=
  cs.dropWhile isBlank

/-- The text without the white space behind. -/
def trimEnd (cs : List Char) : List Char :=
  (cs.reverse.dropWhile isBlank).reverse

/-- The text without the white space at either end. -/
def trim (s : String) : String :=
  String.ofList (trimEnd (trimStart s.toList))

theorem dropWhile_append_of_all {p : Char → Bool} {pad cs : List Char}
    (h : ∀ c ∈ pad, p c = true) : (pad ++ cs).dropWhile p = cs.dropWhile p := by
  induction pad with
  | nil => rfl
  | cons c pad ih =>
    have hc : p c = true := h c (by simp)
    simpa [hc] using ih fun d hd => h d (by simp [hd])

@[simp]
theorem trimStart_pad {pad cs : List Char} (h : ∀ c ∈ pad, isBlank c = true) :
    trimStart (pad ++ cs) = trimStart cs :=
  dropWhile_append_of_all h

@[simp]
theorem trimEnd_pad {pad cs : List Char} (h : ∀ c ∈ pad, isBlank c = true) :
    trimEnd (cs ++ pad) = trimEnd cs := by
  unfold trimEnd
  rw [List.reverse_append, dropWhile_append_of_all (by simpa using h)]

end StatementOutline.Text
