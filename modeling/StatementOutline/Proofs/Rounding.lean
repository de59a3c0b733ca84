import StatementOutline.Proofs.Boundaries

/-!
# Offsets between boundaries and past the end

An offset inside a character is rounded down, so a boundary lies at or before the byte of an offset
exactly when its own offset lies at or before that one. Past the end an offset is clamped to the
length of the source. The sum from which it is clamped exceeds the offset by the bytes that the
source has in excess of its units, so for the last offsets of all it wraps around, and a byte inside
the source comes out.

* `toByte_past_end`: the byte of an offset at the end or behind it;
* `le_toByte_iff`: rounding, told by boundaries;
* `toByte_le_toByte`: order is kept as far as sums do not wrap around.
-/

namespace StatementOutline

open Text

namespace Text

variable {cs pre post : List Char} {c : Char} {b u : Nat}

/-- No character has more units than bytes. -/
theorem unitLength_le_byteLength (c : Char) : unitLength c ≤ byteLength c := by
  have hpos := byteLength_pos c
  unfold unitLength byteLength at *
  split
  · exact hpos
  · next hwide =>
    have hval : ¬ c.val.toNat < 0x10000 := hwide
    have hfour : c.utf8Size = 4 := by
      unfold Char.utf8Size
      simp only [UInt32.le_iff_toNat_le]
      have hmax : ∀ n : UInt32, n.toNat < 0x10000 → ¬ c.val.toNat ≤ n.toNat := by
        intro n hn
        omega
      rw [if_neg (hmax _ (by decide)), if_neg (hmax _ (by decide)), if_neg (hmax _ (by decide))]
    omega

theorem totalUnits_le_totalBytes (cs : List Char) : totalUnits cs ≤ totalBytes cs := by
  induction cs with
  | nil => exact Nat.le_refl _
  | cons c cs ih =>
    have := unitLength_le_byteLength c
    rw [totalUnits_cons, totalBytes_cons]
    omega

/-- In whatever unit a text is measured, each offset inside it belongs to one of its characters. -/
theorem exists_char_at (len : Char → Nat) {cs : List Char} {n : Nat}
    (h : n < cs.foldr (fun c total => len c + total) 0) :
    ∃ pre c post, cs = pre ++ c :: post ∧ pre.foldr (fun c total => len c + total) 0 ≤ n ∧
      n < pre.foldr (fun c total => len c + total) 0 + len c := by
  induction cs generalizing n with
  | nil => exact absurd h (Nat.not_lt_zero _)
  | cons d cs ih =>
    rw [List.foldr_cons] at h
    by_cases hd : n < len d
    · exact ⟨[], d, cs, rfl, Nat.zero_le _, by simpa using hd⟩
    · have rest : n - len d < cs.foldr (fun c total => len c + total) 0 := by omega
      obtain ⟨pre, c, post, rfl, hlo, hhi⟩ := ih rest
      refine ⟨d :: pre, c, post, rfl, ?_, ?_⟩
      · rw [List.foldr_cons]
        omega
      · rw [List.foldr_cons]
        omega

theorem exists_char_of_unit (h : u < totalUnits cs) :
    ∃ pre c post, cs = pre ++ c :: post ∧ totalUnits pre ≤ u ∧
      u < totalUnits pre + unitLength c :=
  exists_char_at unitLength h

theorem exists_char_of_byte (h : b < totalBytes cs) :
    ∃ pre c post, cs = pre ++ c :: post ∧ totalBytes pre ≤ b ∧
      b < totalBytes pre + byteLength c :=
  exists_char_at byteLength h

/-- There is no boundary inside a character. -/
theorem Boundary.outside (h : Boundary (pre ++ c :: post) b u) :
    b ≤ totalBytes pre ∧ u ≤ totalUnits pre ∨
      totalBytes pre + byteLength c ≤ b ∧ totalUnits pre + unitLength c ≤ u := by
  obtain ⟨front, back, hsplit, rfl, rfl⟩ := h
  obtain ⟨mid, rfl, hmid⟩ | ⟨mid, rfl, -⟩ := List.append_eq_append_iff.1 hsplit
  · cases mid with
    | nil => simp
    | cons d mid =>
      obtain ⟨rfl, -⟩ := List.cons.inj hmid
      right
      simp only [totalBytes_append, totalBytes_cons, totalUnits_append, totalUnits_cons]
      omega
  · left
    simp only [totalBytes_append, totalUnits_append]
    omega

end Text

/-- A wide character of the table is one of the characters of the text. -/
theorem exists_char_of_mem_wideChars {byte unit : Nat} {cs : List Char} {w : WideChar}
    (h : w ∈ wideChars byte unit cs) : ∃ pre c post, cs = pre ++ c :: post ∧
      w = ⟨byte + totalBytes pre, unit + totalUnits pre, byteLength c, unitLength c⟩ := by
  induction cs generalizing byte unit with
  | nil => simp [wideChars] at h
  | cons d cs ih =>
    have later : w ∈ wideChars (byte + byteLength d) (unit + unitLength d) cs →
        ∃ pre c post, d :: cs = pre ++ c :: post ∧
          w = ⟨byte + totalBytes pre, unit + totalUnits pre, byteLength c, unitLength c⟩ := by
      intro hw
      obtain ⟨pre, c, post, rfl, rfl⟩ := ih hw
      refine ⟨d :: pre, c, post, rfl, ?_⟩
      rw [totalBytes_cons, totalUnits_cons, Nat.add_assoc, Nat.add_assoc]
    rw [wideChars] at h
    split at h
    · exact later h
    · rcases List.mem_cons.1 h with rfl | h
      · exact ⟨[], d, cs, rfl, rfl⟩
      · exact later h

namespace Offsets

variable {source : String} {unit : OffsetUnit} {offset byte a b : Nat} {t : Offsets} {w : WideChar}

/-- The bytes that a source has in excess of its units. -/
def surplus (t : Offsets) : Nat :=
  t.byteLen - t.unitLen

theorem unitLen_le_byteLen (source : String) (unit : OffsetUnit) :
    (ofSource source unit).unitLen ≤ (ofSource source unit).byteLen := by
  cases unit with
  | utf8 => exact Nat.le_refl _
  | utf16 => exact totalUnits_le_totalBytes _

@[simp]
theorem byteLen_ofSource (source : String) (unit : OffsetUnit) :
    (ofSource source unit).byteLen = totalBytes source.toList := by
  cases unit <;> rfl

@[simp]
theorem unitLen_utf16 (source : String) :
    (ofSource source .utf16).unitLen = totalUnits source.toList := rfl

/-! ## Past the end -/

/-- Behind the last wide character the byte is told by a sum of words. -/
theorem toByte_behind_word {last : Option WideChar} {rest : Nat}
    (h : t.lastWide? (fun w => w.unitStart ≤ offset) = last)
    (hoffset : offset = (lastStop 0 0 last).2 + rest) (hword : offset < UInt64.size) :
    t.toByte offset = min (((lastStop 0 0 last).1 + rest) % UInt64.size) t.byteLen := by
  cases last with
  | none =>
    simp only [lastStop, Option.map_none, Option.getD_none, Nat.zero_add] at hoffset ⊢
    rw [← hoffset, Nat.mod_eq_of_lt hword]
    simp only [toByte, h]
  | some w =>
    simp only [lastStop, Option.map_some, Option.getD_some] at hoffset ⊢
    have hbehind : ¬ offset < w.unitStart + w.unitLen := by omega
    have hrest : offset - w.unitStart - w.unitLen = rest := by omega
    simp only [toByte, h, if_neg hbehind, hrest]

/-- The byte of an offset at the end of the source or behind it. -/
theorem toByte_past_end (hoffset : (ofSource source unit).unitLen ≤ offset)
    (hword : offset < UInt64.size) :
    (ofSource source unit).toByte offset =
      min ((offset + (ofSource source unit).surplus) % UInt64.size)
        (ofSource source unit).byteLen := by
  cases unit with
  | utf8 =>
    have surplus : (ofSource source .utf8).surplus = 0 := Nat.sub_self _
    rw [toByte_utf8, surplus, Nat.add_zero, Nat.mod_eq_of_lt hword]
    rfl
  | utf16 =>
    rw [unitLen_utf16] at hoffset
    have hlast := lastWide?_at (p := fun w => w.unitStart ≤ offset)
      (List.append_nil source.toList).symm
      (fun w _ hw => decide_eq_true (Nat.le_trans (Nat.le_of_lt hw) hoffset))
      (by simp [wideChars])
    obtain ⟨rest, hbyte, hunit⟩ := lastStop_wideChars 0 0 source.toList
    rw [Nat.zero_add] at hbyte hunit
    have past : offset = (lastStop 0 0 (wideChars 0 0 source.toList).getLast?).2 +
        (rest + (offset - totalUnits source.toList)) := by omega
    have behind := toByte_behind_word hlast past hword
    have sum : (lastStop 0 0 (wideChars 0 0 source.toList).getLast?).1 +
        (rest + (offset - totalUnits source.toList)) =
          offset + (ofSource source .utf16).surplus := by
      have := totalUnits_le_totalBytes source.toList
      simp only [surplus, byteLen_ofSource, unitLen_utf16]
      omega
    rw [behind, sum]

/-- An offset past the end is clamped if its sum does not wrap around. -/
theorem toByte_eq_byteLen (hoffset : (ofSource source unit).unitLen ≤ offset)
    (hword : offset + (ofSource source unit).surplus < UInt64.size) :
    (ofSource source unit).toByte offset = (ofSource source unit).byteLen := by
  rw [toByte_past_end hoffset (by omega), Nat.mod_eq_of_lt hword]
  have := unitLen_le_byteLen source unit
  unfold surplus
  omega

/-- If its sum wraps around, a byte inside the source comes out. -/
theorem toByte_wrapped (hsize : totalBytes source.toList < UInt64.size)
    (hoffset : (ofSource source unit).unitLen ≤ offset) (hword : offset < UInt64.size)
    (hwrap : UInt64.size ≤ offset + (ofSource source unit).surplus) :
    (ofSource source unit).toByte offset =
      offset + (ofSource source unit).surplus - UInt64.size := by
  have hlen := byteLen_ofSource source unit
  have hsurplus : (ofSource source unit).surplus ≤ (ofSource source unit).byteLen := Nat.sub_le _ _
  rw [toByte_past_end hoffset hword, Nat.mod_eq_sub_mod hwrap, Nat.mod_eq_of_lt (by omega)]
  exact Nat.min_eq_left (by omega)

/-- In the other direction every byte behind the source is clamped. -/
theorem ofByte_past_end (hbyte : (ofSource source unit).byteLen ≤ byte) :
    (ofSource source unit).ofByte byte = (ofSource source unit).unitLen := by
  rw [byteLen_ofSource] at hbyte
  cases unit with
  | utf8 =>
    rw [ofByte_utf8]
    exact Nat.min_eq_right hbyte
  | utf16 =>
    have hlast := lastWide?_at (p := fun w => w.byteStart ≤ byte)
      (List.append_nil source.toList).symm
      (fun w hw _ => decide_eq_true (Nat.le_trans (Nat.le_of_lt hw) hbyte))
      (by simp [wideChars])
    obtain ⟨rest, hbytes, hunits⟩ := lastStop_wideChars 0 0 source.toList
    rw [Nat.zero_add] at hbytes hunits
    have past : byte = (lastStop 0 0 (wideChars 0 0 source.toList).getLast?).1 +
        (rest + (byte - totalBytes source.toList)) := by omega
    rw [ofByte_behind hlast past, unitLen_utf16]
    omega

/-! ## Sums of words -/

/-- The sum for an offset behind a wide character is at most the offset with the surplus. -/
theorem byteSum_le (hw : w ∈ (ofSource source unit).wide)
    (hoffset : w.unitStart + w.unitLen ≤ offset) :
    w.byteStart + w.byteLen + (offset - w.unitStart - w.unitLen) ≤
      offset + (ofSource source unit).surplus := by
  cases unit with
  | utf8 => simp [ofSource] at hw
  | utf16 =>
    have hmem : w ∈ wideChars 0 0 source.toList := by simpa [ofSource] using hw
    obtain ⟨pre, c, post, hsplit, rfl⟩ := exists_char_of_mem_wideChars hmem
    have := totalUnits_le_totalBytes post
    simp only [surplus, byteLen_ofSource, unitLen_utf16, hsplit, totalBytes_append,
      totalBytes_cons, totalUnits_append, totalUnits_cons] at hoffset ⊢
    omega

/-- The sum for a byte behind a wide character is at most the byte. -/
theorem unitSum_le (hw : w ∈ (ofSource source unit).wide)
    (hbyte : w.byteStart + w.byteLen ≤ byte) :
    w.unitStart + w.unitLen + (byte - w.byteStart - w.byteLen) ≤ byte := by
  cases unit with
  | utf8 => simp [ofSource] at hw
  | utf16 =>
    have hmem : w ∈ wideChars 0 0 source.toList := by simpa [ofSource] using hw
    obtain ⟨pre, c, post, -, rfl⟩ := exists_char_of_mem_wideChars hmem
    have := totalUnits_le_totalBytes pre
    have := unitLength_le_byteLength c
    simp only [Nat.zero_add] at hbyte ⊢
    omega

/-! ## Rounding -/

/-- A boundary lies at or before the byte of an offset exactly when it is reported at or before the
offset. -/
theorem le_toByte_iff (hsize : totalBytes source.toList < UInt64.size)
    (hword : offset + (ofSource source unit).surplus < UInt64.size)
    (hb : IsBoundary source.toList b) :
    b ≤ (ofSource source unit).toByte offset ↔ (ofSource source unit).ofByte b ≤ offset := by
  obtain ⟨u, hb⟩ := hb
  have hlen := hb.le
  cases unit with
  | utf8 =>
    rw [toByte_utf8, ofByte_utf8]
    omega
  | utf16 =>
    rw [ofByte_of_boundary hb]
    by_cases hend : offset < totalUnits source.toList
    · obtain ⟨pre, c, post, hsplit, hlo, hhi⟩ := exists_char_of_unit hend
      rw [toByte_of_inside hsplit hsize hlo hhi]
      rw [hsplit] at hb
      have := byteLength_pos c
      rcases hb.outside with ⟨before, before'⟩ | ⟨behind, behind'⟩
      · omega
      · omega
    · rw [toByte_eq_byteLen (Nat.le_of_not_lt hend) hword, byteLen_ofSource]
      omega

/-- An offset is rounded down to a boundary, when it is counted in UTF-16 units. -/
theorem isBoundary_toByte (hsize : totalBytes source.toList < UInt64.size)
    (hword : offset + (ofSource source .utf16).surplus < UInt64.size) :
    IsBoundary source.toList ((ofSource source .utf16).toByte offset) := by
  by_cases hend : offset < totalUnits source.toList
  · obtain ⟨pre, c, post, hsplit, hlo, hhi⟩ := exists_char_of_unit hend
    rw [toByte_of_inside hsplit hsize hlo hhi]
    exact ⟨_, pre, c :: post, hsplit, rfl, rfl⟩
  · rw [toByte_eq_byteLen (Nat.le_of_not_lt hend) hword, byteLen_ofSource]
    exact ⟨_, boundary_end _⟩

/-- Later offsets stand for later bytes, as far as sums do not wrap around. -/
theorem toByte_le_toByte (hsize : totalBytes source.toList < UInt64.size) (hab : a ≤ b)
    (hword : b + (ofSource source unit).surplus < UInt64.size) :
    (ofSource source unit).toByte a ≤ (ofSource source unit).toByte b := by
  have hword' : a + (ofSource source unit).surplus < UInt64.size := by omega
  cases unit with
  | utf8 =>
    rw [toByte_utf8, toByte_utf8]
    omega
  | utf16 =>
    have boundary := isBoundary_toByte hsize hword'
    have rounded := (le_toByte_iff hsize hword' boundary).1 (Nat.le_refl _)
    exact (le_toByte_iff hsize hword boundary).2 (Nat.le_trans rounded hab)

/-- The byte of an offset lies in a run between boundaries exactly when the offset lies in the run
as it is reported. -/
theorem owns_ofBytes_iff (hsize : totalBytes source.toList < UInt64.size)
    (hword : offset + (ofSource source unit).surplus < UInt64.size) {s : Span}
    (hstart : IsBoundary source.toList s.start) (hstop : IsBoundary source.toList s.stop) :
    ((ofSource source unit).ofBytes s).Owns offset ↔
      s.Owns ((ofSource source unit).toByte offset) := by
  have lower := le_toByte_iff hsize hword hstart
  have upper := not_congr (le_toByte_iff hsize hword hstop)
  rw [Nat.not_le, Nat.not_le] at upper
  exact and_congr lower.symm upper.symm

end Offsets

end StatementOutline
