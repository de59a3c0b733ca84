/-!
# Numerals

The digits of a number in some base, the most significant first. `value_digits` says that they read
back as the number, and `digits_inj` that different numbers have different digits.
-/

namespace StatementOutline.Text

/-- The digits of a number. Bases beyond 16 run out of digits. -/
def digits (base n : Nat) : List Char :=
  if n < base ∨ base < 2 then [Nat.digitChar n]
  else digits base (n / base) ++ [Nat.digitChar (n % base)]
termination_by n
decreasing_by exact Nat.div_lt_self (by omega) (by omega)

/-- The decimal numeral of a number. -/
def decimal (n : Nat) : String :=
  String.ofList (digits 10 n)

/-- The value of a decimal digit. -/
def digitValue (c : Char) : Nat :=
  c.toNat - '0'.toNat

/-- The value of decimal digits. -/
def value (cs : List Char) : Nat :=
  cs.foldl (fun acc c => 10 * acc + digitValue c) 0

theorem digitChar_mem (n : Nat) (h : n < 16) :
    Nat.digitChar n ∈ ['0', '1', '2', '3', '4', '5', '6', '7', '8', '9', 'a', 'b', 'c', 'd', 'e',
      'f'] := by
  revert n
  decide

/-- A digit of a number in a base up to 16 is a decimal digit or one of the letters up to f. -/
theorem mem_digits {base n : Nat} {c : Char} (hb : 2 ≤ base) (hb' : base ≤ 16)
    (h : c ∈ digits base n) :
    c ∈ ['0', '1', '2', '3', '4', '5', '6', '7', '8', '9', 'a', 'b', 'c', 'd', 'e', 'f'] := by
  fun_induction digits base n with
  | case1 n hn =>
    obtain rfl := List.mem_singleton.1 h
    exact digitChar_mem n (by omega)
  | case2 n hn ih =>
    rcases List.mem_append.1 h with h | h
    · exact ih h
    · obtain rfl := List.mem_singleton.1 h
      have : n % base < base := Nat.mod_lt n (by omega)
      exact digitChar_mem _ (by omega)

theorem digitValue_digitChar (n : Nat) (h : n < 10) : digitValue (Nat.digitChar n) = n := by
  revert n
  decide

@[simp]
theorem value_digits (n : Nat) : value (digits 10 n) = n := by
  induction n using Nat.strongRecOn with
  | ind n ih =>
    unfold digits
    split
    · next h => simpa [value] using digitValue_digitChar n (by omega)
    · have hq : value (digits 10 (n / 10)) = n / 10 := ih (n / 10) (by omega)
      have hd := digitValue_digitChar (n % 10) (by omega)
      unfold value at hq ⊢
      rw [List.foldl_append, hq]
      simp only [List.foldl_cons, List.foldl_nil, hd]
      omega

theorem digits_inj {m n : Nat} (h : digits 10 m = digits 10 n) : m = n := by
  rw [← value_digits m, ← value_digits n, h]

end StatementOutline.Text
