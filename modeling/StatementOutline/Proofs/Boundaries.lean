import StatementOutline.Offsets

/-!
# Character boundaries

The table of a source knows only the characters that are not ASCII. It converts offsets all the same
as a scan of every character would: an offset inside a character is taken for the start of that
character, and the boundaries between characters correspond.

* `toByte_of_inside`, `ofByte_of_inside`: an offset inside a character, or at its start;
* `toByte_of_boundary`, `ofByte_of_boundary`: boundaries correspond;
* `Boundary.lt_iff`: and are in the same order in bytes and in units.
-/

namespace StatementOutline

open Text

/-! ## The table -/

section
variable {byte unit : Nat} {cs ds : List Char} {w : WideChar}

theorem wideChars_append : wideChars byte unit (cs ++ ds) =
    wideChars byte unit cs ++ wideChars (byte + totalBytes cs) (unit + totalUnits cs) ds := by
  induction cs generalizing byte unit with
  | nil => rfl
  | cons c cs ih =>
    simp only [List.cons_append, wideChars, ih, totalBytes_cons, totalUnits_cons, ← Nat.add_assoc]
    split
    · rfl
    · rw [List.cons_append]

/-- Each wide character lies inside the text. -/
theorem inside_of_mem_wideChars (h : w ∈ wideChars byte unit cs) :
    byte ≤ w.byteStart ∧ w.byteStart + w.byteLen ≤ byte + totalBytes cs ∧ 0 < w.byteLen ∧
      unit ≤ w.unitStart ∧ w.unitStart + w.unitLen ≤ unit + totalUnits cs ∧ 0 < w.unitLen := by
  induction cs generalizing byte unit with
  | nil => simp [wideChars] at h
  | cons c cs ih =>
    have hbyte := byteLength_pos c
    have hunit := unitLength_pos c
    rw [totalBytes_cons, totalUnits_cons]
    unfold wideChars at h
    dsimp only at h
    split at h
    · have := ih h
      omega
    · obtain rfl | h := List.mem_cons.1 h
      · dsimp only
        omega
      · have := ih h
        omega

/-- Where the last of some wide characters stops, in both units; without any, a given place. -/
def lastStop (byte unit : Nat) (last : Option WideChar) : Nat × Nat :=
  (last.map fun w => (w.byteStart + w.byteLen, w.unitStart + w.unitLen)).getD (byte, unit)

/-- Behind the last wide character bytes and units go in step. -/
theorem lastStop_wideChars (byte unit : Nat) (cs : List Char) :
    ∃ rest, byte + totalBytes cs = (lastStop byte unit (wideChars byte unit cs).getLast?).1 + rest ∧
      unit + totalUnits cs = (lastStop byte unit (wideChars byte unit cs).getLast?).2 + rest := by
  induction cs generalizing byte unit with
  | nil => exact ⟨0, rfl, rfl⟩
  | cons c cs ih =>
    obtain ⟨rest, hbyte, hunit⟩ := ih (byte + byteLength c) (unit + unitLength c)
    rw [totalBytes_cons, totalUnits_cons, ← Nat.add_assoc, ← Nat.add_assoc, hbyte, hunit]
    by_cases hc : isAscii c = true
    · simp only [wideChars, if_pos hc, byteLength_of_isAscii hc, unitLength_of_isAscii hc]
      cases (wideChars (byte + 1) (unit + 1) cs).getLast? with
      | none => exact ⟨1 + rest, Nat.add_assoc _ _ _, Nat.add_assoc _ _ _⟩
      | some w => exact ⟨rest, rfl, rfl⟩
    · simp only [wideChars, if_neg hc, List.getLast?_cons]
      cases (wideChars (byte + byteLength c) (unit + unitLength c) cs).getLast? with
      | none => exact ⟨rest, rfl, rfl⟩
      | some w => exact ⟨rest, rfl, rfl⟩

end

namespace Offsets

variable {t : Offsets} {p : WideChar → Bool} {front back : List WideChar}

/-- When the test holds on a front part of the table and fails behind it, the last of the front part
is found. -/
theorem lastWide?_of_split (h : t.wide.toList = front ++ back) (hfront : ∀ w ∈ front, p w = true)
    (hback : ∀ w ∈ back, p w = false) : t.lastWide? p = front.getLast? := by
  unfold lastWide?
  rw [partitionPoint_of_split h hfront hback, List.getLast?_eq_getElem?]
  cases hf : front.length with
  | zero => simp [List.length_eq_zero_iff.1 hf]
  | succ n =>
    have hn : n < front.length := by omega
    show t.wide[n]? = front[n]?
    rw [← Array.getElem?_toList, h, List.getElem?_append_left hn]

/-! ## Both directions -/

section
variable {last : Option WideChar} {w : WideChar} {offset byte rest : Nat}

theorem toByte_behind (h : t.lastWide? (fun w => w.unitStart ≤ offset) = last)
    (hoffset : offset = (lastStop 0 0 last).2 + rest)
    (hsize : (lastStop 0 0 last).1 + rest < UInt64.size) :
    t.toByte offset = min ((lastStop 0 0 last).1 + rest) t.byteLen := by
  cases last with
  | none =>
    simp only [toByte, h]
    simp [lastStop, hoffset]
  | some w =>
    simp only [lastStop, Option.map_some, Option.getD_some] at hoffset hsize ⊢
    have hbehind : ¬ offset < w.unitStart + w.unitLen := by omega
    have hrest : offset - w.unitStart - w.unitLen = rest := by omega
    simp only [toByte, h, if_neg hbehind, hrest, Nat.mod_eq_of_lt hsize]

theorem ofByte_behind (h : t.lastWide? (fun w => w.byteStart ≤ byte) = last)
    (hbyte : byte = (lastStop 0 0 last).1 + rest) :
    t.ofByte byte = min ((lastStop 0 0 last).2 + rest) t.unitLen := by
  cases last with
  | none =>
    simp only [ofByte, h]
    simp [lastStop, hbyte]
  | some w =>
    simp only [lastStop, Option.map_some, Option.getD_some] at hbyte ⊢
    have hbehind : ¬ byte < w.byteStart + w.byteLen := by omega
    have hrest : byte - w.byteStart - w.byteLen = rest := by omega
    simp only [ofByte, h, if_neg hbehind, hrest]

theorem toByte_within (h : t.lastWide? (fun w => w.unitStart ≤ offset) = some w)
    (hoffset : offset < w.unitStart + w.unitLen) : t.toByte offset = min w.byteStart t.byteLen := by
  simp only [toByte, h, if_pos hoffset]

theorem ofByte_within (h : t.lastWide? (fun w => w.byteStart ≤ byte) = some w)
    (hbyte : byte < w.byteStart + w.byteLen) : t.ofByte byte = min w.unitStart t.unitLen := by
  simp only [ofByte, h, if_pos hbyte]

end

variable {source : String} {pre post : List Char} {c : Char} {offset byte : Nat}

theorem wide_ofSource (h : source.toList = pre ++ post) :
    (ofSource source .utf16).wide.toList =
      wideChars 0 0 pre ++ wideChars (totalBytes pre) (totalUnits pre) post := by
  simp [ofSource, h, wideChars_append]

/-- At a place where a wide character starts only behind the place, the last one in front is
found. -/
theorem lastWide?_at (h : source.toList = pre ++ post)
    (hfront : ∀ w, w.byteStart < totalBytes pre → w.unitStart < totalUnits pre → p w = true)
    (hback : ∀ w ∈ wideChars (totalBytes pre) (totalUnits pre) post, p w = false) :
    (ofSource source .utf16).lastWide? p = (wideChars 0 0 pre).getLast? := by
  refine lastWide?_of_split (wide_ofSource h) (fun w hw => ?_) hback
  have := inside_of_mem_wideChars hw
  exact hfront w (by omega) (by omega)

/-- From the start of a wide character to its end that character is found. -/
theorem lastWide?_of_wide (h : source.toList = pre ++ c :: post) (hc : isAscii c = false)
    (hfront : ∀ w, w.byteStart ≤ totalBytes pre → w.unitStart ≤ totalUnits pre → p w = true)
    (hback : ∀ w, totalBytes pre + byteLength c ≤ w.byteStart →
      totalUnits pre + unitLength c ≤ w.unitStart → p w = false) :
    (ofSource source .utf16).lastWide? p =
      some ⟨totalBytes pre, totalUnits pre, byteLength c, unitLength c⟩ := by
  have split : (ofSource source .utf16).wide.toList =
      (wideChars 0 0 pre ++ [⟨totalBytes pre, totalUnits pre, byteLength c, unitLength c⟩]) ++
        wideChars (totalBytes pre + byteLength c) (totalUnits pre + unitLength c) post := by
    rw [wide_ofSource h, wideChars, if_neg (by simp [hc]), List.append_assoc]
    rfl
  rw [lastWide?_of_split split, List.getLast?_concat]
  · intro w hw
    obtain hw | hw := List.mem_append.1 hw
    · have := inside_of_mem_wideChars hw
      exact hfront w (by omega) (by omega)
    · obtain rfl := List.mem_singleton.1 hw
      exact hfront _ (Nat.le_refl _) (Nat.le_refl _)
  · intro w hw
    have := inside_of_mem_wideChars hw
    exact hback w this.1 this.2.2.2.1

theorem toByte_at (h : source.toList = pre ++ post) (hsize : totalBytes source.toList < UInt64.size)
    (hback : ∀ w ∈ wideChars (totalBytes pre) (totalUnits pre) post, totalUnits pre < w.unitStart) :
    (ofSource source .utf16).toByte (totalUnits pre) = totalBytes pre := by
  have hlast := lastWide?_at (p := fun w => w.unitStart ≤ totalUnits pre) h
    (fun w _ hw => decide_eq_true (Nat.le_of_lt hw))
    fun w hw => decide_eq_false (Nat.not_le.2 (hback w hw))
  have hlen : totalBytes pre ≤ totalBytes source.toList := by simp [h]
  obtain ⟨rest, hbyte, hunit⟩ := lastStop_wideChars 0 0 pre
  rw [Nat.zero_add] at hbyte hunit
  rw [toByte_behind hlast hunit (by omega), ← hbyte]
  exact Nat.min_eq_left hlen

theorem ofByte_at (h : source.toList = pre ++ post)
    (hback : ∀ w ∈ wideChars (totalBytes pre) (totalUnits pre) post, totalBytes pre < w.byteStart) :
    (ofSource source .utf16).ofByte (totalBytes pre) = totalUnits pre := by
  have hlast := lastWide?_at (p := fun w => w.byteStart ≤ totalBytes pre) h
    (fun w hw _ => decide_eq_true (Nat.le_of_lt hw))
    fun w hw => decide_eq_false (Nat.not_le.2 (hback w hw))
  have hlen : totalUnits pre ≤ totalUnits source.toList := by simp [h]
  obtain ⟨rest, hbyte, hunit⟩ := lastStop_wideChars 0 0 pre
  rw [Nat.zero_add] at hbyte hunit
  rw [ofByte_behind hlast hbyte, ← hunit]
  exact Nat.min_eq_left hlen

/-- Behind an ASCII character every wide one starts later in both units. -/
theorem lt_of_mem_wideChars_cons {w : WideChar} (hc : isAscii c = true)
    (hw : w ∈ wideChars (totalBytes pre) (totalUnits pre) (c :: post)) :
    totalBytes pre < w.byteStart ∧ totalUnits pre < w.unitStart := by
  rw [wideChars, if_pos hc, byteLength_of_isAscii hc, unitLength_of_isAscii hc] at hw
  have := inside_of_mem_wideChars hw
  omega

/-- A caller's offset inside a character, or at its start, stands for the start of the character. -/
theorem toByte_of_inside (h : source.toList = pre ++ c :: post)
    (hsize : totalBytes source.toList < UInt64.size) (hlo : totalUnits pre ≤ offset)
    (hhi : offset < totalUnits pre + unitLength c) :
    (ofSource source .utf16).toByte offset = totalBytes pre := by
  cases hc : isAscii c with
  | true =>
    rw [unitLength_of_isAscii hc] at hhi
    obtain rfl : offset = totalUnits pre := by omega
    exact toByte_at h hsize fun w hw => (lt_of_mem_wideChars_cons hc hw).2
  | false =>
    have hlast := lastWide?_of_wide (p := fun w => w.unitStart ≤ offset) h hc
      (fun w _ hw => decide_eq_true (by omega)) fun w _ hw => decide_eq_false (by omega)
    rw [toByte_within hlast hhi]
    exact Nat.min_eq_left (by simp [ofSource, h])

/-- A byte inside a character, or at its start, stands for the start of the character. -/
theorem ofByte_of_inside (h : source.toList = pre ++ c :: post) (hlo : totalBytes pre ≤ byte)
    (hhi : byte < totalBytes pre + byteLength c) :
    (ofSource source .utf16).ofByte byte = totalUnits pre := by
  cases hc : isAscii c with
  | true =>
    rw [byteLength_of_isAscii hc] at hhi
    obtain rfl : byte = totalBytes pre := by omega
    exact ofByte_at h fun w hw => (lt_of_mem_wideChars_cons hc hw).1
  | false =>
    have hlast := lastWide?_of_wide (p := fun w => w.byteStart ≤ byte) h hc
      (fun w hw _ => decide_eq_true (by omega)) fun w hw _ => decide_eq_false (by omega)
    rw [ofByte_within hlast hhi]
    exact Nat.min_eq_left (by simp [ofSource, h])

end Offsets

/-! ## Boundaries -/

/-- A place between two characters of a text or at one of its ends, in bytes and in units. -/
def Text.Boundary (cs : List Char) (byte unit : Nat) : Prop :=
  ∃ pre post, cs = pre ++ post ∧ totalBytes pre = byte ∧ totalUnits pre = unit

/-- The byte offset of such a place. -/
def Text.IsBoundary (cs : List Char) (byte : Nat) : Prop :=
  ∃ unit, Boundary cs byte unit

namespace Text

variable {cs : List Char} {b b' u u' : Nat}

theorem isBoundary_iff : IsBoundary cs b ↔ ∃ i < cs.length + 1, totalBytes (cs.take i) = b := by
  constructor
  · rintro ⟨_, pre, post, rfl, rfl, -⟩
    have inside : pre.length ≤ (pre ++ post).length := by
      rw [List.length_append]
      exact Nat.le_add_right _ _
    exact ⟨pre.length, Nat.lt_succ_of_le inside, by rw [List.take_left]⟩
  · rintro ⟨i, -, rfl⟩
    exact ⟨_, cs.take i, cs.drop i, (List.take_append_drop i cs).symm, rfl, rfl⟩

instance (cs : List Char) : DecidablePred (IsBoundary cs) := fun b =>
  decidable_of_iff (∃ i < cs.length + 1, totalBytes (cs.take i) = b) isBoundary_iff.symm

theorem boundary_start (cs : List Char) : Boundary cs 0 0 :=
  ⟨[], cs, rfl, rfl, rfl⟩

theorem boundary_end (cs : List Char) : Boundary cs (totalBytes cs) (totalUnits cs) :=
  ⟨cs, [], (List.append_nil cs).symm, rfl, rfl⟩

theorem Boundary.le (h : Boundary cs b u) : b ≤ totalBytes cs ∧ u ≤ totalUnits cs := by
  obtain ⟨pre, post, rfl, rfl, rfl⟩ := h
  simp

/-- Only an empty text has no bytes, and only an empty text has no units. -/
theorem totalBytes_pos {cs : List Char} (h : cs ≠ []) : 0 < totalBytes cs ∧ 0 < totalUnits cs := by
  cases cs with
  | nil => exact absurd rfl h
  | cons c cs =>
    have := byteLength_pos c
    have := unitLength_pos c
    simp only [totalBytes_cons, totalUnits_cons]
    omega

/-- Boundaries are in the same order in bytes and in units. -/
theorem Boundary.lt_iff (h : Boundary cs b u) (h' : Boundary cs b' u') : b < b' ↔ u < u' := by
  obtain ⟨pre, post, rfl, rfl, rfl⟩ := h
  obtain ⟨pre', post', heq, rfl, rfl⟩ := h'
  obtain ⟨mid, rfl, -⟩ | ⟨mid, rfl, -⟩ := List.append_eq_append_iff.1 heq
  · by_cases hmid : mid = []
    · simp [hmid]
    · have := totalBytes_pos hmid
      simp only [totalBytes_append, totalUnits_append]
      omega
  · by_cases hmid : mid = []
    · simp [hmid]
    · have := totalBytes_pos hmid
      simp only [totalBytes_append, totalUnits_append]
      omega

theorem Boundary.le_iff (h : Boundary cs b u) (h' : Boundary cs b' u') : b ≤ b' ↔ u ≤ u' := by
  have := h'.lt_iff h
  omega

end Text

namespace Offsets

variable {source : String} {b u : Nat}

/-- The byte of a boundary is found from its unit. -/
theorem toByte_of_boundary (h : Boundary source.toList b u)
    (hsize : totalBytes source.toList < UInt64.size) : (ofSource source .utf16).toByte u = b := by
  obtain ⟨pre, post, hpost, rfl, rfl⟩ := h
  cases post with
  | nil => exact toByte_at hpost hsize (by simp [wideChars])
  | cons c post =>
    have := unitLength_pos c
    exact toByte_of_inside hpost hsize (Nat.le_refl _) (by omega)

/-- The unit of a boundary is found from its byte. -/
theorem ofByte_of_boundary (h : Boundary source.toList b u) :
    (ofSource source .utf16).ofByte b = u := by
  obtain ⟨pre, post, hpost, rfl, rfl⟩ := h
  cases post with
  | nil => exact ofByte_at hpost (by simp [wideChars])
  | cons c post =>
    have := byteLength_pos c
    exact ofByte_of_inside hpost (Nat.le_refl _) (by omega)

/-- A caller who counts bytes needs no table. -/
theorem lastWide?_utf8 (source : String) (p : WideChar → Bool) :
    (ofSource source .utf8).lastWide? p = none := by
  have split : (ofSource source .utf8).wide.toList = [] ++ [] := rfl
  exact lastWide?_of_split split (by simp) (by simp)

theorem toByte_utf8 (source : String) (offset : Nat) :
    (ofSource source .utf8).toByte offset = min offset (totalBytes source.toList) := by
  simp only [toByte, lastWide?_utf8]
  rfl

theorem ofByte_utf8 (source : String) (byte : Nat) :
    (ofSource source .utf8).ofByte byte = min byte (totalBytes source.toList) := by
  simp only [ofByte, lastWide?_utf8]
  rfl

/-! ## Either unit -/

variable {unit : OffsetUnit} {b' u' : Nat}

theorem ofByte_le_unitLen (t : Offsets) (byte : Nat) : t.ofByte byte ≤ t.unitLen :=
  Nat.min_le_right _ _

/-- A boundary that is reported to a caller is understood when the caller hands it back. -/
theorem toByte_ofByte (h : Boundary source.toList b u)
    (hsize : totalBytes source.toList < UInt64.size) :
    (ofSource source unit).toByte ((ofSource source unit).ofByte b) = b := by
  cases unit with
  | utf8 =>
    have := h.le
    rw [ofByte_utf8, toByte_utf8]
    omega
  | utf16 => rw [ofByte_of_boundary h, toByte_of_boundary h hsize]

theorem toBytes_ofBytes {s : Span} (hstart : Boundary source.toList s.start u)
    (hstop : Boundary source.toList s.stop u') (hsize : totalBytes source.toList < UInt64.size) :
    (ofSource source unit).toBytes ((ofSource source unit).ofBytes s) = s := by
  simp only [toBytes, ofBytes, toByte_ofByte hstart hsize, toByte_ofByte hstop hsize]

theorem ofByte_le_ofByte (h : Boundary source.toList b u) (h' : Boundary source.toList b' u')
    (hle : b ≤ b') : (ofSource source unit).ofByte b ≤ (ofSource source unit).ofByte b' := by
  cases unit with
  | utf8 =>
    rw [ofByte_utf8, ofByte_utf8]
    omega
  | utf16 => rwa [ofByte_of_boundary h, ofByte_of_boundary h', ← h.le_iff h']

theorem toByte_zero (hsize : totalBytes source.toList < UInt64.size) :
    (ofSource source unit).toByte 0 = 0 := by
  cases unit with
  | utf8 => rw [toByte_utf8, Nat.zero_min]
  | utf16 => exact toByte_of_boundary (boundary_start _) hsize

theorem toByte_unitLen (hsize : totalBytes source.toList < UInt64.size) :
    (ofSource source unit).toByte (ofSource source unit).unitLen = totalBytes source.toList := by
  cases unit with
  | utf8 => rw [toByte_utf8]; exact Nat.min_self _
  | utf16 => exact toByte_of_boundary (boundary_end _) hsize

end Offsets

end StatementOutline
