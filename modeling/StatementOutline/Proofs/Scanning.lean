import Mathlib.Data.Nat.Find
import StatementOutline.Proofs.Queries
import StatementOutline.Proofs.Rounding

/-!
# Scanning all characters

The boundaries of a source are numbered from its start to its end, and each has a place in bytes and
one in units. A scan goes over all of them and takes the last one at or before an offset. The table
knows the wide characters only, but it answers as that scan does.

* `lastBoundary_eq`: how the last boundary at or before an offset is told;
* `toByte_eq_byteAt`, `ofByte_eq_unitAt`: the table and the scan agree;
* `scanned`: what follows for boundaries, for offsets inside characters and for queries.
-/

namespace StatementOutline

open Text

namespace Text

/-- The byte of the boundary behind the first `k` characters. -/
def byteAt (cs : List Char) (k : Nat) : Nat :=
  totalBytes (cs.take k)

/-- The unit of the boundary behind the first `k` characters. -/
def unitAt (cs : List Char) (k : Nat) : Nat :=
  totalUnits (cs.take k)

/-- The number of the last boundary that is at or before an offset, of boundaries at some places. -/
def lastBoundary (place : Nat → Nat) (count offset : Nat) : Nat :=
  Nat.findGreatest (fun k => place k ≤ offset) count

variable {cs pre post : List Char} {c : Char} {place : Nat → Nat} {i j k count offset offset' : Nat}

/-- Boundaries are in order. -/
theorem boundaries_lt (hij : i < j) (hj : j ≤ cs.length) :
    byteAt cs i < byteAt cs j ∧ unitAt cs i < unitAt cs j := by
  have split : cs.take j = cs.take i ++ (cs.drop i).take (j - i) := by
    rw [← List.take_add, Nat.add_sub_cancel' (Nat.le_of_lt hij)]
  have between : (cs.drop i).take (j - i) ≠ [] := by
    apply List.ne_nil_of_length_pos
    rw [List.length_take, List.length_drop]
    omega
  have solid := totalBytes_pos between
  simp only [byteAt, unitAt, split, totalBytes_append, totalUnits_append]
  omega

theorem byteAt_length (cs : List Char) : byteAt cs cs.length = totalBytes cs := by
  rw [byteAt, List.take_length]

theorem unitAt_length (cs : List Char) : unitAt cs cs.length = totalUnits cs := by
  rw [unitAt, List.take_length]

/-- In front of a character is the boundary behind those before it, and the next one is behind it. -/
theorem boundaries_of_split (h : cs = pre ++ c :: post) :
    pre.length < cs.length ∧
      (byteAt cs pre.length = totalBytes pre ∧
        byteAt cs (pre.length + 1) = totalBytes pre + byteLength c) ∧
      unitAt cs pre.length = totalUnits pre ∧
        unitAt cs (pre.length + 1) = totalUnits pre + unitLength c := by
  have inside : pre.length < cs.length := by
    rw [h, List.length_append, List.length_cons]
    omega
  have front : cs.take pre.length = pre := by
    rw [h, List.take_left]
  have next : cs.take (pre.length + 1) = pre ++ [c] := by
    rw [h, List.take_append, Nat.add_sub_cancel_left, List.take_of_length_le (Nat.le_succ _)]
    rfl
  simp [byteAt, unitAt, front, next, inside]

/-- Each character has its number. -/
theorem exists_split (hk : k < cs.length) : ∃ pre c post, cs = pre ++ c :: post ∧ pre.length = k := by
  refine ⟨cs.take k, cs[k], cs.drop (k + 1), ?_, List.length_take_of_le (Nat.le_of_lt hk)⟩
  rw [List.getElem_cons_drop, List.take_append_drop]

/-- The last boundary at or before an offset is one that has the next one behind the offset. -/
theorem lastBoundary_eq (increasing : ∀ i j, i < j → j ≤ count → place i < place j)
    (hk : k ≤ count) (before : place k ≤ offset) (behind : k < count → offset < place (k + 1)) :
    lastBoundary place count offset = k := by
  refine Nat.findGreatest_eq_iff.2 ⟨hk, fun _ => before, fun j hkj hj => ?_⟩
  have next := behind (Nat.lt_of_lt_of_le hkj hj)
  by_cases hnext : k + 1 = j
  · rw [← hnext]
    omega
  · have later := increasing (k + 1) j (by omega) hj
    omega

theorem lastBoundary_le (place : Nat → Nat) (count offset : Nat) :
    lastBoundary place count offset ≤ count :=
  Nat.findGreatest_le count

/-- Later offsets have later boundaries in front of them. -/
theorem lastBoundary_mono (h : offset ≤ offset') :
    lastBoundary place count offset ≤ lastBoundary place count offset' :=
  Nat.findGreatest_mono_left (fun _ hk => Nat.le_trans hk h) count

end Text

namespace Offsets

variable {source : String} {offset byte k a b : Nat} {s : Span}

/-! ## The table and the scan -/

/-- A caller's offset stands for the byte of the last boundary at or before it. -/
theorem toByte_eq_byteAt (hsize : totalBytes source.toList < UInt64.size)
    (hoffset : offset ≤ totalUnits source.toList) :
    (ofSource source .utf16).toByte offset =
      byteAt source.toList (lastBoundary (unitAt source.toList) source.toList.length offset) := by
  have increasing : ∀ i j, i < j → j ≤ source.toList.length →
      unitAt source.toList i < unitAt source.toList j := fun i j hij hj => (boundaries_lt hij hj).2
  by_cases hend : offset < totalUnits source.toList
  · obtain ⟨pre, c, post, hsplit, hlo, hhi⟩ := exists_char_of_unit hend
    obtain ⟨inside, ⟨bytes, -⟩, units, next⟩ := boundaries_of_split hsplit
    have last := lastBoundary_eq increasing (Nat.le_of_lt inside) (units ▸ hlo)
      fun _ => next ▸ hhi
    rw [toByte_of_inside hsplit hsize hlo hhi, last, bytes]
  · obtain rfl : offset = totalUnits source.toList := Nat.le_antisymm hoffset (Nat.le_of_not_lt hend)
    have last : lastBoundary (unitAt source.toList) source.toList.length
        (totalUnits source.toList) = source.toList.length :=
      lastBoundary_eq increasing (Nat.le_refl _) (Nat.le_of_eq (unitAt_length _))
        fun h => absurd h (Nat.lt_irrefl _)
    rw [last, byteAt_length]
    exact toByte_unitLen hsize

/-- A byte is reported as the unit of the last boundary at or before it. -/
theorem ofByte_eq_unitAt (hbyte : byte ≤ totalBytes source.toList) :
    (ofSource source .utf16).ofByte byte =
      unitAt source.toList (lastBoundary (byteAt source.toList) source.toList.length byte) := by
  have increasing : ∀ i j, i < j → j ≤ source.toList.length →
      byteAt source.toList i < byteAt source.toList j := fun i j hij hj => (boundaries_lt hij hj).1
  by_cases hend : byte < totalBytes source.toList
  · obtain ⟨pre, c, post, hsplit, hlo, hhi⟩ := exists_char_of_byte hend
    obtain ⟨inside, ⟨bytes, next⟩, units, -⟩ := boundaries_of_split hsplit
    have last := lastBoundary_eq increasing (Nat.le_of_lt inside) (bytes ▸ hlo)
      fun _ => next ▸ hhi
    rw [ofByte_of_inside hsplit hlo hhi, last, units]
  · obtain rfl : byte = totalBytes source.toList := Nat.le_antisymm hbyte (Nat.le_of_not_lt hend)
    have last : lastBoundary (byteAt source.toList) source.toList.length
        (totalBytes source.toList) = source.toList.length :=
      lastBoundary_eq increasing (Nat.le_refl _) (Nat.le_of_eq (byteAt_length _))
        fun h => absurd h (Nat.lt_irrefl _)
    rw [last, unitAt_length]
    exact ofByte_of_boundary (boundary_end _)

/-- Bytes are reported in order, those behind the source included. -/
theorem ofByte_mono (hab : a ≤ b) :
    (ofSource source .utf16).ofByte a ≤ (ofSource source .utf16).ofByte b := by
  by_cases hend : totalBytes source.toList ≤ b
  · have past : (ofSource source .utf16).byteLen ≤ b := by rwa [byteLen_ofSource]
    rw [ofByte_past_end past]
    exact ofByte_le_unitLen _ _
  · have hb := Nat.le_of_not_le hend
    rw [ofByte_eq_unitAt (Nat.le_trans hab hb), ofByte_eq_unitAt hb]
    have later : lastBoundary (byteAt source.toList) source.toList.length a ≤
        lastBoundary (byteAt source.toList) source.toList.length b := lastBoundary_mono hab
    rcases Nat.lt_or_eq_of_le later with hlt | heq
    · exact Nat.le_of_lt (boundaries_lt hlt (lastBoundary_le _ _ _)).2
    · rw [heq]

/-- A source in ASCII needs no table. -/
theorem ofSource_of_isAscii (h : ∀ c ∈ source.toList, isAscii c = true) :
    ofSource source .utf16 = ofSource source .utf8 := by
  have plain : ∀ (cs : List Char) (byte unit : Nat), (∀ c ∈ cs, isAscii c = true) →
      wideChars byte unit cs = [] ∧ totalUnits cs = totalBytes cs := by
    intro cs
    induction cs with
    | nil => exact fun _ _ _ => ⟨rfl, rfl⟩
    | cons c cs ih =>
      intro byte unit hcs
      obtain ⟨hc, hcs⟩ := List.forall_mem_cons.1 hcs
      obtain ⟨none_wide, total⟩ := ih (byte + byteLength c) (unit + unitLength c) hcs
      rw [wideChars, if_pos hc, none_wide, totalUnits_cons, totalBytes_cons, total,
        unitLength_of_isAscii hc, byteLength_of_isAscii hc]
      exact ⟨rfl, rfl⟩
  obtain ⟨none_wide, total⟩ := plain source.toList 0 0 h
  simp only [ofSource, none_wide, total]

/-- The table of a source answers as a scan of all of its boundaries does. -/
structure Scanned (source : String) : Prop where
  /-- Boundaries are in order in bytes and in units, and the last one is the end of the source. -/
  increasing : ∀ j k, j < k → k ≤ source.toList.length →
    byteAt source.toList j < byteAt source.toList k ∧
      unitAt source.toList j < unitAt source.toList k
  length : (ofSource source .utf16).unitLen = unitAt source.toList source.toList.length ∧
    (ofSource source .utf16).byteLen = byteAt source.toList source.toList.length
  /-- An offset stands for the last boundary at or before it. -/
  toByte_eq : ∀ offset ≤ unitAt source.toList source.toList.length,
    (ofSource source .utf16).toByte offset =
      byteAt source.toList (lastBoundary (unitAt source.toList) source.toList.length offset)
  /-- A byte is reported as the last boundary at or before it. -/
  ofByte_eq : ∀ byte ≤ byteAt source.toList source.toList.length,
    (ofSource source .utf16).ofByte byte =
      unitAt source.toList (lastBoundary (byteAt source.toList) source.toList.length byte)
  inverse : ∀ k ≤ source.toList.length,
    (ofSource source .utf16).toByte (unitAt source.toList k) = byteAt source.toList k ∧
      (ofSource source .utf16).ofByte (byteAt source.toList k) = unitAt source.toList k
  toByte_mono : ∀ a b, a ≤ b → b ≤ (ofSource source .utf16).unitLen →
    (ofSource source .utf16).toByte a ≤ (ofSource source .utf16).toByte b
  ofByte_mono : ∀ a b, a ≤ b →
    (ofSource source .utf16).ofByte a ≤ (ofSource source .utf16).ofByte b
  /-- Inside a character both directions go down to its start. -/
  rounds_down : ∀ k < source.toList.length,
    (∀ offset, unitAt source.toList k ≤ offset → offset < unitAt source.toList (k + 1) →
      (ofSource source .utf16).toByte offset = byteAt source.toList k) ∧
    ∀ byte, byteAt source.toList k ≤ byte → byte < byteAt source.toList (k + 1) →
      (ofSource source .utf16).ofByte byte = unitAt source.toList k
  /-- A query inside the source comes to bytes inside the source, between boundaries. -/
  query : ∀ s : Span, s.start ≤ s.stop → s.stop ≤ (ofSource source .utf16).unitLen →
    ((ofSource source .utf16).toBytes s).start ≤ ((ofSource source .utf16).toBytes s).stop ∧
      ((ofSource source .utf16).toBytes s).stop ≤ totalBytes source.toList ∧
      IsBoundary source.toList ((ofSource source .utf16).toBytes s).start ∧
      IsBoundary source.toList ((ofSource source .utf16).toBytes s).stop
  /-- Callers that count bytes are taken at their word. -/
  bytes : (ofSource source .utf8).unitLen = totalBytes source.toList ∧
    ∀ n ≤ totalBytes source.toList,
      (ofSource source .utf8).toByte n = n ∧ (ofSource source .utf8).ofByte n = n
  ascii : (∀ c ∈ source.toList, isAscii c = true) →
    ofSource source .utf16 = ofSource source .utf8

/-- Whatever the characters of a source, its table does what a scan would do. -/
theorem scanned (hsize : totalBytes source.toList < UInt64.size) : Scanned source := by
  have word : ∀ {offset}, offset ≤ (ofSource source .utf16).unitLen →
      offset + (ofSource source .utf16).surplus < UInt64.size := by
    intro offset hoffset
    have hle := unitLen_le_byteLen source .utf16
    have hlen := byteLen_ofSource source .utf16
    unfold surplus
    omega
  constructor
  · intro j k hjk hk
    exact boundaries_lt hjk hk
  · rw [unitAt_length, byteAt_length]
    exact ⟨rfl, rfl⟩
  · intro offset hoffset
    rw [unitAt_length] at hoffset
    exact toByte_eq_byteAt hsize hoffset
  · intro byte hbyte
    rw [byteAt_length] at hbyte
    exact ofByte_eq_unitAt hbyte
  · intro k _
    have boundary : Boundary source.toList (byteAt source.toList k) (unitAt source.toList k) :=
      ⟨source.toList.take k, source.toList.drop k, (List.take_append_drop k _).symm, rfl, rfl⟩
    exact ⟨toByte_of_boundary boundary hsize, ofByte_of_boundary boundary⟩
  · intro a b hab hb
    exact toByte_le_toByte hsize hab (word hb)
  · intro a b hab
    exact ofByte_mono hab
  · intro k hk
    obtain ⟨pre, c, post, hsplit, rfl⟩ := exists_split hk
    obtain ⟨-, ⟨bytes, next⟩, units, next'⟩ := boundaries_of_split hsplit
    rw [bytes, next, units, next']
    constructor
    · intro offset hlo hhi
      exact toByte_of_inside hsplit hsize hlo hhi
    · intro byte hlo hhi
      exact ofByte_of_inside hsplit hlo hhi
  · intro s hs hstop
    have hstart := Nat.le_trans hs hstop
    exact ⟨toByte_le_toByte hsize hs (word hstop), Nat.min_le_right _ _,
      isBoundary_toByte hsize (word hstart), isBoundary_toByte hsize (word hstop)⟩
  · refine ⟨rfl, fun n hn => ?_⟩
    rw [toByte_utf8, ofByte_utf8]
    exact ⟨Nat.min_eq_left hn, Nat.min_eq_left hn⟩
  · intro h
    exact ofSource_of_isAscii h

end Offsets

namespace Outline

open Offsets

theorem scanned_accents : totalBytes accents.toList < UInt64.size ∧ Scanned accents := by
  have small : totalBytes accents.toList < UInt64.size := by
    rw [totalBytes_accents]
    decide
  exact ⟨small, scanned small⟩

end Outline

end StatementOutline
