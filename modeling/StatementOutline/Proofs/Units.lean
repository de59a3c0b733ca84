import StatementOutline.Proofs.Queries

/-!
# Counting in units

A run of a source between two character boundaries can be told in bytes and in UTF-16 units. A query
selects the same statements told either way, and what is reported in units is again a run told in
units: spans keep their order and their nesting, and they still meet the query.

* `SameRun`: a run, in bytes and in units;
* `LawfulRanges`: the laws of an outline for the ranges that it reports;
* `units_of_bytes`: the outline of a run.
-/

namespace StatementOutline

/-- The run of a text between two boundaries, in bytes and in units. -/
structure Text.SameRun (cs : List Char) (bytes units : Span) : Prop where
  start : Boundary cs bytes.start units.start
  stop : Boundary cs bytes.stop units.stop

namespace Text.SameRun

variable {cs : List Char} {b b' u u' : Span} {source : String}

theorem le_iff (h : SameRun cs b u) : b.start ≤ b.stop ↔ u.start ≤ u.stop :=
  h.start.le_iff h.stop

theorem empty_iff (h : SameRun cs b u) : b.Empty ↔ u.Empty :=
  h.stop.le_iff h.start

theorem eq_iff (h : SameRun cs b u) (h' : SameRun cs b' u') : b = b' ↔ u = u' := by
  have start := (h.start.le_iff h'.start).and (h'.start.le_iff h.start)
  have stop := (h.stop.le_iff h'.stop).and (h'.stop.le_iff h.stop)
  rw [← Nat.le_antisymm_iff, ← Nat.le_antisymm_iff] at start stop
  rw [Span.mk.injEq, Span.mk.injEq, start, stop]

theorem strictlyInside_iff (h : SameRun cs b u) (h' : SameRun cs b' u') :
    b.StrictlyInside b' ↔ u.StrictlyInside u' :=
  (h'.start.le_iff h.start).and ((h.stop.le_iff h'.stop).and (h.eq_iff h').not)

theorem meets_iff (h : SameRun cs b u) (h' : SameRun cs b' u') : b.Meets b' ↔ u.Meets u' := by
  unfold Span.Meets Span.Owns
  simp only [h.stop.le_iff h.start, h'.start.le_iff h.start, h.start.lt_iff h'.stop,
    h'.start.lt_iff h.stop]

/-- The bytes of a run are found from its units. -/
theorem toBytes_eq (h : SameRun source.toList b u)
    (hsize : totalBytes source.toList < UInt64.size) :
    (Offsets.ofSource source .utf16).toBytes u = b := by
  simp only [Offsets.toBytes, Offsets.toByte_of_boundary h.start hsize,
    Offsets.toByte_of_boundary h.stop hsize]

/-- The units of a run are found from its bytes. -/
theorem ofBytes (hstart : IsBoundary source.toList b.start)
    (hstop : IsBoundary source.toList b.stop) :
    SameRun source.toList b ((Offsets.ofSource source .utf16).ofBytes b) := by
  obtain ⟨_, hstart⟩ := hstart
  obtain ⟨_, hstop⟩ := hstop
  constructor
  · simpa only [Offsets.ofBytes, Offsets.ofByte_of_boundary hstart] using hstart
  · simpa only [Offsets.ofBytes, Offsets.ofByte_of_boundary hstop] using hstop

end Text.SameRun

namespace Outline

open Text

variable {language : Language} {source : String} {bytes units : Span} {policy : RangePolicy}
  {limit : UInt64} {root : Node} {o : Outline}

/-! ## Asking in units -/

theorem accepted_iff_of_sameRun (hq : SameRun source.toList bytes units) :
    Accepted source units ⟨.utf16, policy, limit⟩ ↔
      Accepted source bytes ⟨.utf8, policy, limit⟩ := by
  constructor
  · rintro ⟨small, ordered, -⟩
    exact ⟨small, hq.le_iff.2 ordered, hq.stop.le.1⟩
  · rintro ⟨small, ordered, -⟩
    exact ⟨small, hq.le_iff.1 ordered, hq.stop.le.2⟩

theorem scopeOf_units (hq : SameRun source.toList bytes units)
    (h : Accepted source units ⟨.utf16, policy, limit⟩) :
    scopeOf source units ⟨.utf16, policy, limit⟩ = ⟨bytes, policy⟩ := by
  rw [scopeOf, hq.toBytes_eq h.size_lt]

theorem scopeOf_bytes (hq : SameRun source.toList bytes units) :
    scopeOf source bytes ⟨.utf8, policy, limit⟩ = ⟨bytes, policy⟩ := by
  have start := Nat.min_eq_left hq.start.le.1
  have stop := Nat.min_eq_left hq.stop.le.1
  simp only [scopeOf, Offsets.toBytes, Offsets.toByte_utf8, start, stop]

/-- A run selects the same statements in units as in bytes, and fails to be built alike. -/
theorem forest_of_sameRun (hq : SameRun source.toList bytes units) :
    (ofTree language source units ⟨.utf16, policy, limit⟩ root).toOption.map forest =
        (ofTree language source bytes ⟨.utf8, policy, limit⟩ root).toOption.map forest ∧
      ∀ message, ofTree language source units ⟨.utf16, policy, limit⟩ root =
          .error (.inconsistent message) ↔
        ofTree language source bytes ⟨.utf8, policy, limit⟩ root =
          .error (.inconsistent message) := by
  by_cases h : Accepted source units ⟨.utf16, policy, limit⟩
  · rw [ofTree_of_accepted h, ofTree_of_accepted ((accepted_iff_of_sameRun hq).1 h),
      scopeOf_units hq h, scopeOf_bytes hq]
    cases Forest.ofSketch ⟨bytes, policy⟩ (language.rules.sketchRoot root) with
    | error v => simp
    | ok f => simp [Except.toOption]
  · obtain ⟨failure, hunits, hother⟩ := ofTree_of_not_accepted language root h
    obtain ⟨failure', hbytes, hother'⟩ :=
      ofTree_of_not_accepted language root ((accepted_iff_of_sameRun hq).not.1 h)
    rw [hunits, hbytes]
    refine ⟨rfl, fun message => ?_⟩
    simp [hother message, hother' message]

/-! ## Reporting in units -/

/-- The laws of an outline of a source, for the ranges that it reports. -/
structure LawfulRanges (o : Outline) (source : String) (query : Span) (policy : RangePolicy) :
    Prop where
  /-- A range counts the units of the statement. -/
  counted : ∀ i e, o.get? i = some e → SameRun source.toList e.span (o.rangeOf e)
  solid : ∀ i e, o.get? i = some e → ¬ (o.rangeOf e).Empty
  inside : ∀ i e p, o.get? i = some e → e.parent = some p →
    ∃ outer, o.get? p = some outer ∧ (o.rangeOf e).StrictlyInside (o.rangeOf outer)
  /-- A later sibling starts where an earlier one has ended. -/
  after : ∀ parent, (o.forest.childrenOf parent).toList.Pairwise fun i j =>
    ∃ a b, o.get? i = some a ∧ o.get? j = some b ∧ (o.rangeOf a).stop ≤ (o.rangeOf b).start
  /-- The query, as it was given, meets the range. -/
  met : policy = .intersecting → ∀ i e, o.get? i = some e → query.Meets (o.rangeOf e)

theorem lawfulRanges_holding {f : Forest} (hends : root.EndsIn (IsBoundary source.toList))
    (hq : SameRun source.toList bytes units)
    (hf : Forest.ofSketch ⟨bytes, policy⟩ (language.rules.sketchRoot root) = .ok f) :
    (holding language source units ⟨.utf16, policy, limit⟩ root f).LawfulRanges source units
      policy := by
  have hs := Forest.sound_of_ofSketch hf
  have counted : ∀ i e, f.get? i = some e →
      SameRun source.toList e.span ((Offsets.ofSource source .utf16).ofBytes e.span) := by
    intro i e he
    obtain ⟨hstart, hstop⟩ := Forest.endsIn_of_get? hf hends he
    exact .ofBytes hstart hstop
  constructor
  · exact counted
  · intro i e he
    have solid : ¬ e.span.Empty := Nat.not_le.2 (hs.fitted.solid (Forest.records_of_get? he))
    exact (counted i e he).empty_iff.not.1 solid
  · intro i e p he hp
    obtain ⟨-, r, hr, hin⟩ := hs.fitted.inside (Forest.records_of_get? he) hp
    obtain ⟨outer, ho, rfl⟩ := Forest.exists_of_records hr
    exact ⟨outer, ho, ((counted i e he).strictlyInside_iff (counted p outer ho)).1 hin⟩
  · intro parent
    refine (hs.pairwise_level parent).imp ?_
    rintro i j ⟨x, r, hx, hr, after⟩
    obtain ⟨a, ha, rfl⟩ := Forest.exists_of_records hx
    obtain ⟨b, hb, rfl⟩ := Forest.exists_of_records hr
    exact ⟨a, b, ha, hb, ((counted i a ha).stop.le_iff (counted j b hb).start).1 after⟩
  · intro hpolicy i e he
    have admits := Forest.admits_of_ofSketch hf _ (List.mem_of_getElem? (Forest.records_of_get? he))
    exact (hq.meets_iff (counted i e he)).1 admits.1

/-- A run that is given in units has the statements that it has when it is given in bytes. What is
reported for them counts their units and obeys the laws of an outline. -/
theorem units_of_bytes (hends : root.EndsIn (IsBoundary source.toList))
    (hq : SameRun source.toList bytes units) :
    (ofTree language source units ⟨.utf16, policy, limit⟩ root).toOption.map forest =
        (ofTree language source bytes ⟨.utf8, policy, limit⟩ root).toOption.map forest ∧
      (∀ message, ofTree language source units ⟨.utf16, policy, limit⟩ root =
          .error (.inconsistent message) ↔
        ofTree language source bytes ⟨.utf8, policy, limit⟩ root =
          .error (.inconsistent message)) ∧
      ∀ o, ofTree language source units ⟨.utf16, policy, limit⟩ root = .ok o →
        o.LawfulRanges source units policy := by
  obtain ⟨same, fails⟩ := forest_of_sameRun hq
  refine ⟨same, fails, fun o ho => ?_⟩
  obtain ⟨accepted, f, hf, rfl⟩ := ofTree_eq_ok_iff.1 ho
  rw [scopeOf_units hq accepted] at hf
  exact lawfulRanges_holding hends hq hf

/-- The brace that opens the outer block is the unit at 6, and the byte at 9. -/
theorem units_of_bytes_accents : accentsRoot.EndsIn (IsBoundary accents.toList) ∧
    SameRun accents.toList ⟨9, 10⟩ ⟨6, 7⟩ ∧
    ∃ o, ofTree .c accents ⟨6, 7⟩ ⟨.utf16, .intersecting, 100⟩ accentsRoot = .ok o ∧
      some o.forest = (ofTree .c accents ⟨9, 10⟩ ⟨.utf8, .intersecting, 100⟩
        accentsRoot).toOption.map forest ∧
      o.LawfulRanges accents ⟨6, 7⟩ .intersecting := by
  have run : SameRun accents.toList ⟨9, 10⟩ ⟨6, 7⟩ := by
    rw [toList_accents]
    exact ⟨⟨['"', 'é', '😀', '"', ';'], _, rfl, rfl, rfl⟩,
      ⟨['"', 'é', '😀', '"', ';', '\x7b'], _, rfl, rfl, rfl⟩⟩
  have accepted : Accepted accents ⟨6, 7⟩ ⟨.utf16, .intersecting, 100⟩ :=
    ⟨small_accents, by decide, by rw [unitLen_accents]; decide⟩
  have built : Forest.ofSketch (scopeOf accents ⟨6, 7⟩ ⟨.utf16, .intersecting, 100⟩)
      (Language.c.rules.sketchRoot accentsRoot) =
        .ok ⟨#[⟨"compound_statement", ⟨9, 13⟩, true, none, #[]⟩], #[0]⟩ := by
    rw [scopeOf_units run accepted, sketchRoot_accents]
    rfl
  have made := ofTree_eq_ok_iff.2 ⟨accepted, _, built, rfl⟩
  obtain ⟨same, -, lawful⟩ := units_of_bytes ends_accents run
  rw [made] at same
  exact ⟨ends_accents, run, _, made, same, lawful _ made⟩

end Outline

end StatementOutline
