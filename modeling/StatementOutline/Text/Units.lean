/-!
# Lengths of text

The length of a character in UTF-8 bytes and in UTF-16 units, and the part of a text between two
byte positions.
-/

namespace StatementOutline.Text

/-- The number of bytes of a character in UTF-8. -/
def byteLength (c : Char) : Nat :=
  c.utf8Size

/-- The number of units of a character in UTF-16. -/
def unitLength (c : Char) : Nat :=
  if c.toNat < 0x10000 then 1 else 2

/-- Whether a character is ASCII. -/
def isAscii (c : Char) : Bool :=
  c.toNat < 0x80

/-- The number of bytes of a text. -/
def totalBytes (cs : List Char) : Nat :=
  cs.foldr (fun c n => byteLength c + n) 0

/-- The number of UTF-16 units of a text. -/
def totalUnits (cs : List Char) : Nat :=
  cs.foldr (fun c n => unitLength c + n) 0

theorem byteLength_pos (c : Char) : 0 < byteLength c :=
  c.utf8Size_pos

theorem unitLength_pos (c : Char) : 0 < unitLength c := by
  unfold unitLength
  split <;> omega

@[simp]
theorem totalBytes_nil : totalBytes [] = 0 := rfl

@[simp]
theorem totalBytes_cons (c : Char) (cs : List Char) :
    totalBytes (c :: cs) = byteLength c + totalBytes cs := rfl

@[simp]
theorem totalBytes_append (cs ds : List Char) :
    totalBytes (cs ++ ds) = totalBytes cs + totalBytes ds := by
  induction cs with
  | nil => simp
  | cons c cs ih => simp [ih, Nat.add_assoc]

@[simp]
theorem totalUnits_nil : totalUnits [] = 0 := rfl

@[simp]
theorem totalUnits_cons (c : Char) (cs : List Char) :
    totalUnits (c :: cs) = unitLength c + totalUnits cs := rfl

@[simp]
theorem totalUnits_append (cs ds : List Char) :
    totalUnits (cs ++ ds) = totalUnits cs + totalUnits ds := by
  induction cs with
  | nil => simp
  | cons c cs ih => simp [ih, Nat.add_assoc]

theorem byteLength_of_isAscii {c : Char} (h : isAscii c = true) : byteLength c = 1 := by
  have hc : c.val.toNat < 0x80 := of_decide_eq_true h
  rw [byteLength, Char.utf8Size, if_pos]
  rw [UInt32.le_iff_toNat_le]
  exact Nat.le_of_lt_succ hc

theorem unitLength_of_isAscii {c : Char} (h : isAscii c = true) : unitLength c = 1 := by
  have hc : c.toNat < 0x80 := of_decide_eq_true h
  rw [unitLength, if_pos (by omega)]

/-- The text without its first `n` bytes, if these end with a character. -/
def dropBytes? : Nat → List Char → Option (List Char)
  | 0, cs => some cs
  | _ + 1, [] => none
  | n + 1, c :: cs => if byteLength c ≤ n + 1 then dropBytes? (n + 1 - byteLength c) cs else none

/-- The first `n` bytes of the text, if these end with a character. -/
def takeBytes? : Nat → List Char → Option (List Char)
  | 0, _ => some []
  | _ + 1, [] => none
  | n + 1, c :: cs =>
    if byteLength c ≤ n + 1 then (takeBytes? (n + 1 - byteLength c) cs).map (c :: ·) else none

/-- The text between two byte positions, if both are character boundaries of the text. -/
def slice? (cs : List Char) (start stop : Nat) : Option (List Char) :=
  if stop < start then none else dropBytes? start cs >>= takeBytes? (stop - start)

end StatementOutline.Text
