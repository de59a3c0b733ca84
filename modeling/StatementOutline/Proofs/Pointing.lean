import StatementOutline.Proofs.Laminar
import StatementOutline.Proofs.Queries
import StatementOutline.Proofs.Rounding

/-!
# Asking by offset

A caller asks for the statement at an offset in units of its own. The answer is found among bytes,
by halving one level after the other, and it is the one that a scan of all reported ranges would
give.

* `Innermost.unique`: the way down ends at one place only, however many levels it may take;
* `Sound.innermost?_eq_some_iff`: the statement that is found is the deepest of those that own the
  byte;
* `Outline.points_of_ofTree`: the same of offsets and reported ranges;
* `Outline.clamps`: which offsets past the end are taken for the end.
-/

namespace StatementOutline

namespace Forest

open Record

variable {f : Forest} {byte i j id levels : Nat} {found found' : Option Nat} {r : Record}

/-! ## The deepest owner -/

/-- A statement is one level deeper than its parent. -/
theorem Sound.depth_of_parent (hf : f.Sound) (hr : f.records[j]? = some r)
    (hp : r.parent = some i) : f.depth j = f.depth i + 1 := by
  obtain ⟨e, he, rfl⟩ := exists_of_records hr
  have hlt := hf.fitted.parent_lt hr hp
  have hparent : e.parent = some i := hp
  rw [depth, ancestors, he, Option.bind_some, hparent]
  simp only [if_pos hlt, List.length_cons, depth]

theorem Sound.depth_lt_of_under (hf : f.Sound) (h : Under f.records i j) :
    f.depth i < f.depth j := by
  induction h with
  | child hr hp =>
    rw [hf.depth_of_parent hr hp]
    exact Nat.lt_succ_self _
  | deeper _ hr hp ih =>
    rw [hf.depth_of_parent hr hp]
    exact Nat.lt_succ_of_lt ih

/-- What owns a byte is a statement whose span does. -/
theorem OwnsAt.exists_entry (h : f.OwnsAt byte j) :
    ∃ e, f.get? j = some e ∧ e.span.Owns byte := by
  obtain ⟨r, hr, howns⟩ := h
  obtain ⟨e, he, rfl⟩ := exists_of_records hr
  exact ⟨e, he, howns⟩

/-- Below an innermost owner nothing owns the byte. -/
theorem Innermost.not_under (h : f.Innermost byte (some i)) (hf : f.Sound)
    (hj : f.OwnsAt byte j) : ¬ Under f.records i j := by
  intro hij
  obtain ⟨c, x, hx, hxp, hc⟩ := hij.exists_child
  exact h.last c x hx hxp ((ownsAt_iff hx).1 (hj.of_under hf hc))

/-- If the way down ends at the top, nothing owns the byte. -/
theorem Innermost.not_ownsAt (h : f.Innermost byte none) (hf : f.Sound) : ¬ f.OwnsAt byte j := by
  intro hj
  obtain ⟨e, he, -⟩ := hj.exists_entry
  obtain ⟨c, x, hx, hxp, hc⟩ := exists_root hf.fitted (records_of_get? he)
  exact h.last c x hx hxp ((ownsAt_iff hx).1 (hj.of_under hf hc))

/-- There is one innermost owner at most: two owners have text in common, so one of them lies below
the other. -/
theorem Innermost.unique (h : f.Innermost byte found) (h' : f.Innermost byte found')
    (hf : f.Sound) : found = found' := by
  cases found with
  | none =>
    cases found' with
    | none => rfl
    | some j => exact absurd (h'.owns j rfl) (h.not_ownsAt hf)
  | some i =>
    have hi := h.owns i rfl
    cases found' with
    | none => exact absurd hi (h'.not_ownsAt hf)
    | some j =>
      have hj := h'.owns j rfl
      by_contra hne
      obtain ⟨a, ha, a_start, a_stop⟩ := hi.exists_entry
      obtain ⟨b, hb, b_start, b_stop⟩ := hj.exists_entry
      have hij : i ≠ j := fun heq => hne (congrArg some heq)
      rcases under_or_under_or_apart hf.fitted (records_of_get? ha) (records_of_get? hb) hij with
        under | under | before | behind
      · exact h.not_under hf hj under
      · exact h'.not_under hf hi under
      · exact absurd (Nat.le_trans before b_start) (Nat.not_le.2 a_stop)
      · exact absurd (Nat.le_trans behind a_start) (Nat.not_le.2 b_stop)

/-- With as many levels as there are statements the way down comes to its end. -/
theorem Sound.descend_eq_innermost? (hf : f.Sound) (hlevels : f.size ≤ levels) :
    f.descend byte levels f.roots none = f.innermost? byte := by
  have no_owner : ∀ id, none = some id → f.OwnsAt byte id := by
    intro id h
    cases h
  have ended : f.Innermost byte (f.descend byte levels (f.childrenOf none) none) :=
    hf.descend_spec no_owner fun i x _ _ => Nat.le_add_right_of_le hlevels
  exact ended.unique (hf.innermost byte) hf

/-- The statement that is found owns the byte, and all others that do are less deep. -/
theorem Sound.innermost?_eq_some_iff (hf : f.Sound) (ho : Preordered f.records) :
    f.innermost? byte = some id ↔ f.OwnsAt byte id ∧
      ∀ j, f.OwnsAt byte j → j = id ∨ f.depth j < f.depth id := by
  constructor
  · intro hid
    refine ⟨(hf.innermost byte).owns id hid, fun j hj => ?_⟩
    obtain ⟨id', hid', hj'⟩ := (hf.owns_iff_of_innermost? ho).1 hj
    obtain rfl := Option.some.inj (hid.symm.trans hid')
    exact hj'.imp_right hf.depth_lt_of_under
  · rintro ⟨howns, deepest⟩
    obtain ⟨id', hid', rfl | hunder⟩ := (hf.owns_iff_of_innermost? ho).1 howns
    · exact hid'
    · -- The statement that is found instead would be deeper.
      have deeper := hf.depth_lt_of_under hunder
      rcases deepest id' ((hf.innermost byte).owns id' hid') with rfl | hlt
      · exact absurd deeper (Nat.lt_irrefl _)
      · exact absurd hlt (Nat.lt_asymm deeper)

theorem Sound.innermost?_eq_none_iff (hf : f.Sound) :
    f.innermost? byte = none ↔ ∀ j, ¬ f.OwnsAt byte j := by
  have innermost := hf.innermost byte
  constructor
  · intro h j
    rw [h] at innermost
    exact innermost.not_ownsAt hf
  · intro h
    rw [Option.eq_none_iff_forall_ne_some]
    intro id hid
    exact h id (innermost.owns id hid)

end Forest

namespace Outline

open Text Offsets

variable {language : Language} {source : String} {query : Span} {settings : Settings} {root : Node}
  {o : Outline} {offset : Nat}

/-! ## Offsets and reported ranges -/

/-- What an outline answers for an offset. -/
structure Points (o : Outline) (offset : Nat) : Prop where
  /-- The search has come to its end: with more levels to go it would not find anything else. -/
  ended : ∀ levels, o.size ≤ levels →
    o.forest.descend (o.offsets.toByte offset) levels o.forest.roots none = o.statementAt? offset
  /-- The answer is the statement whose range owns the offset and that is deeper than all others
  whose ranges do. -/
  deepest : ∀ id, o.statementAt? offset = some id ↔
    ∃ e, o.get? id = some e ∧ (o.rangeOf e).Owns offset ∧
      ∀ j x, o.get? j = some x → (o.rangeOf x).Owns offset →
        j = id ∨ o.forest.depth j < o.forest.depth id
  absent : o.statementAt? offset = none ↔ ∀ j x, o.get? j = some x → ¬ (o.rangeOf x).Owns offset

/-- An outline that is built holds a forest that is built, and the table of its source. -/
theorem built_of_ofTree (ho : ofTree language source query settings root = .ok o) :
    totalBytes source.toList < UInt64.size ∧ o.offsets = ofSource source settings.unit ∧
      Forest.ofSketch (scopeOf source query settings) (language.rules.sketchRoot root) =
        .ok o.forest := by
  obtain ⟨accepted, f, hf, rfl⟩ := ofTree_eq_ok_iff.1 ho
  exact ⟨accepted.size_lt, rfl, hf⟩

/-- Whatever the query and the unit, an outline answers for each offset of its source as a scan of
all ranges would. -/
theorem points_of_ofTree (hends : root.EndsIn (IsBoundary source.toList))
    (ho : ofTree language source query settings root = .ok o)
    (hoffset : offset ≤ o.offsets.unitLen) : o.Points offset := by
  obtain ⟨hsize, hoffsets, hf⟩ := built_of_ofTree ho
  have sound := Forest.sound_of_ofSketch hf
  have order := Forest.preordered_of_ofSketch hf
  have hword : offset + (ofSource source settings.unit).surplus < UInt64.size := by
    have hle := unitLen_le_byteLen source settings.unit
    rw [hoffsets] at hoffset
    rw [byteLen_ofSource] at hle
    rw [surplus, byteLen_ofSource]
    omega
  have owns_iff : ∀ j x, o.get? j = some x →
      ((o.rangeOf x).Owns offset ↔ o.forest.OwnsAt (o.offsets.toByte offset) j) := by
    intro j x hx
    obtain ⟨hstart, hstop⟩ := Forest.endsIn_of_get? hf hends hx
    rw [Forest.ownsAt_iff (Forest.records_of_get? hx), rangeOf, hoffsets]
    exact owns_ofBytes_iff hsize hword hstart hstop
  constructor
  · intro levels hlevels
    exact sound.descend_eq_innermost? hlevels
  · intro id
    rw [statementAt?, sound.innermost?_eq_some_iff order]
    constructor
    · rintro ⟨howns, deepest⟩
      obtain ⟨e, he, -⟩ := howns.exists_entry
      refine ⟨e, he, (owns_iff id e he).2 howns, fun j x hx hj => ?_⟩
      exact deepest j ((owns_iff j x hx).1 hj)
    · rintro ⟨e, he, howns, deepest⟩
      refine ⟨(owns_iff id e he).1 howns, fun j hj => ?_⟩
      obtain ⟨x, hx, -⟩ := hj.exists_entry
      exact deepest j x hx ((owns_iff j x hx).2 hj)
  · rw [statementAt?, sound.innermost?_eq_none_iff]
    constructor
    · intro h j x hx hj
      exact h j ((owns_iff j x hx).1 hj)
    · intro h j hj
      obtain ⟨x, hx, -⟩ := hj.exists_entry
      exact h j x hx ((owns_iff j x hx).2 hj)

/-- Unit 3 is in the middle of the character that has two units. -/
theorem points_accents : accentsRoot.EndsIn (IsBoundary accents.toList) ∧
    3 ≤ accentsOutline.offsets.unitLen ∧ accentsOutline.Points 3 := by
  have inside : 3 ≤ accentsOutline.offsets.unitLen := by
    show 3 ≤ (ofSource accents .utf16).unitLen
    rw [unitLen_accents]
    decide
  exact ⟨ends_accents, inside, points_of_ofTree ends_accents ofTree_accents inside⟩

/-! ## Past the end -/

/-- What becomes of the offsets at the end of a source and behind it. -/
structure Clamps (source : String) (unit : OffsetUnit) : Prop where
  /-- An offset is taken for the end, unless its sum wraps around. -/
  clamped : ∀ offset, (ofSource source unit).unitLen ≤ offset → offset < UInt64.size →
    ((ofSource source unit).toByte offset = (ofSource source unit).byteLen ↔
      offset + (ofSource source unit).surplus < UInt64.size)
  wrapped : ∀ offset, (ofSource source unit).unitLen ≤ offset → offset < UInt64.size →
    UInt64.size ≤ offset + (ofSource source unit).surplus →
    (ofSource source unit).toByte offset = offset + (ofSource source unit).surplus - UInt64.size
  /-- As long as that sum does not wrap around, no other does. -/
  sums : ∀ w ∈ (ofSource source unit).wide, ∀ offset, w.unitStart + w.unitLen ≤ offset →
    w.byteStart + w.byteLen + (offset - w.unitStart - w.unitLen) ≤
      offset + (ofSource source unit).surplus
  ordered : ∀ a b, a ≤ b → b + (ofSource source unit).surplus < UInt64.size →
    (ofSource source unit).toByte a ≤ (ofSource source unit).toByte b
  /-- No statement is found there. -/
  unowned : ∀ language query settings root o, settings.unit = unit →
    root.EndsIn (· ≤ totalBytes source.toList) →
    ofTree language source query settings root = .ok o →
    ∀ offset, (ofSource source unit).unitLen ≤ offset →
      offset + (ofSource source unit).surplus < UInt64.size → o.statementAt? offset = none
  /-- In the other direction all bytes behind the end are taken for it, and no sum wraps around. -/
  reported : ∀ byte, (ofSource source unit).byteLen ≤ byte →
    (ofSource source unit).ofByte byte = (ofSource source unit).unitLen
  reported_sums : ∀ w ∈ (ofSource source unit).wide, ∀ byte, w.byteStart + w.byteLen ≤ byte →
    w.unitStart + w.unitLen + (byte - w.byteStart - w.byteLen) ≤ byte

/-- No statement owns the end of its source. -/
theorem statementAt?_end (hends : root.EndsIn (· ≤ totalBytes source.toList))
    (ho : ofTree language source query settings root = .ok o)
    (hoffset : o.offsets.toByte offset = totalBytes source.toList) :
    o.statementAt? offset = none := by
  obtain ⟨-, -, hf⟩ := built_of_ofTree ho
  rw [statementAt?, (Forest.sound_of_ofSketch hf).innermost?_eq_none_iff, hoffset]
  intro j hj
  obtain ⟨x, hx, -, hbyte⟩ := hj.exists_entry
  have hstop : x.span.stop ≤ totalBytes source.toList := (Forest.endsIn_of_get? hf hends hx).2
  exact absurd hbyte (Nat.not_lt.2 hstop)

/-- Offsets past the end are taken for the end as long as their sums do not wrap around. -/
theorem clamps {unit : OffsetUnit} (hsize : totalBytes source.toList < UInt64.size) :
    Clamps source unit := by
  have surplus_le : (ofSource source unit).surplus ≤ (ofSource source unit).byteLen :=
    Nat.sub_le _ _
  have hlen := byteLen_ofSource source unit
  constructor
  · intro offset hend hword
    constructor
    · intro clamped
      by_contra hwrap
      rw [toByte_wrapped hsize hend hword (Nat.le_of_not_lt hwrap)] at clamped
      omega
    · exact toByte_eq_byteLen hend
  · intro offset hend hword hwrap
    exact toByte_wrapped hsize hend hword hwrap
  · intro w hw offset hoffset
    exact byteSum_le hw hoffset
  · intro a b hab hword
    exact toByte_le_toByte hsize hab hword
  · rintro language query settings root o rfl hends ho offset hend hword
    have hclamped := toByte_eq_byteLen hend hword
    rw [byteLen_ofSource, ← (built_of_ofTree ho).2.1] at hclamped
    exact statementAt?_end hends ho hclamped
  · intro byte hbyte
    exact ofByte_past_end hbyte
  · intro w hw byte hbyte
    exact unitSum_le hw hbyte

theorem clamps_accents : totalBytes accents.toList < UInt64.size ∧ Clamps accents .utf16 := by
  have small : totalBytes accents.toList < UInt64.size := by
    rw [totalBytes_accents]
    decide
  exact ⟨small, clamps small⟩

/-- The last offset of all stands for the start of a source of one character with two bytes. -/
theorem not_forall_clamped : ¬ ∀ (source : String) (unit : OffsetUnit) (offset : Nat),
    totalBytes source.toList < UInt64.size → (ofSource source unit).unitLen ≤ offset →
    offset < UInt64.size →
    (ofSource source unit).toByte offset = (ofSource source unit).byteLen := by
  intro h
  have list : (String.ofList ['é']).toList = ['é'] := String.toList_ofList
  have bytes : (ofSource (.ofList ['é']) .utf16).byteLen = 2 := by
    rw [byteLen_ofSource, list]
    rfl
  have units : (ofSource (.ofList ['é']) .utf16).unitLen = 1 := by
    rw [unitLen_utf16, list]
    rfl
  have small : totalBytes (String.ofList ['é']).toList < UInt64.size := by
    rw [list]
    decide
  have past : (ofSource (.ofList ['é']) .utf16).unitLen ≤ UInt64.size - 1 := by
    rw [units]
    decide
  have clamped := h (.ofList ['é']) .utf16 (UInt64.size - 1) small past (by decide)
  rw [toByte_past_end past (by decide), surplus, bytes, units] at clamped
  exact absurd clamped (by decide)

end Outline

end StatementOutline
