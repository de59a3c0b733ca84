import StatementOutline.Proofs.Origins
import StatementOutline.Proofs.Rejection

/-!
# What is recorded

What the walk comes to and the scope admits becomes a statement of the forest, unless it has the
span of the statement around it and is merged into that one.

* `exists_record_of_occurs`: the sketches that become statements;
* `exists_record_of_reaches`: the pieces that become statements;
* `admits_of_stop_le`: a query of the whole source admits them all.
-/

namespace StatementOutline

namespace Forest

open Sketch

variable {s : Scope} {f g h : Forest} {P : Record → Prop} {kind : String} {span : Span}
  {compound : Bool} {parent : Option Nat} {outer : Option Span} {k : Sketch} {ks : List Sketch}
  {x : Record}

/-- A statement that has been pushed stays. -/
theorem exists_record_of_push (hp : f.push kind span compound parent = .ok g)
    (hext : Extends P g h) :
    ∃ i e, h.get? i = some e ∧ e.record = ⟨kind, span, compound, parent⟩ := by
  obtain ⟨e, he, hrecord⟩ := exists_of_records (hext.getElem? (getElem?_records_of_push hp))
  exact ⟨f.size, e, he, hrecord⟩

/-- A statement without a block is merged or pushed if the scope admits it. -/
theorem Place.merged_or_pushed (hplace : f.Place parent outer) (hadmits : s.Admits span false)
    (hplant : f.plantSimple s parent kind span = .ok g) :
    outer = some span ∨ f.push kind span false parent = .ok g := by
  obtain ⟨hno, -⟩ | ⟨-, -, hp⟩ := plantSimple_cases hplant
  · have hmerge : f.merges span parent = true := by simpa [hadmits] using hno
    exact .inl (hplace.merges_iff.1 hmerge)
  · exact .inr hp

/-- A sketch that the scope admits becomes a statement or is merged. -/
theorem exists_record_of_occurs (hk : Occurs ks outer k) (hks : ∀ k ∈ ks, k.WellPlaced)
    (hf : ofSketch s ks = .ok f) (hx : k.Stores x) (hadmits : s.Admits x.span x.compound) :
    outer = some x.span ∨ ∃ i e, f.get? i = some e ∧ k.Stores e.record := by
  have hmeets : s.query.Meets k.span := hx.span_eq ▸ hadmits.1
  obtain ⟨parent, f₁, f₂, -, hplace, hplant, hext⟩ := planted_of_occurs hk hks hf hmeets
  cases hx with
  | simple =>
    rw [plant] at hplant
    rcases hplace.merged_or_pushed hadmits hplant with merged | hp
    · exact .inl merged
    · obtain ⟨i, e, he, hrecord⟩ := exists_record_of_push hp hext
      exact .inr ⟨i, e, he, hrecord ▸ .simple⟩
  | fragment =>
    rw [plant] at hplant
    rcases hplace.merged_or_pushed hadmits hplant with merged | hp
    · exact .inl merged
    · obtain ⟨i, e, he, hrecord⟩ := exists_record_of_push hp hext
      exact .inr ⟨i, e, he, hrecord ▸ .fragment⟩
  | attachments =>
    rw [plant] at hplant
    obtain ⟨hno, -⟩ | ⟨-, hp⟩ := plantRun_cases hplant
    · exact absurd hadmits hno
    · obtain ⟨i, e, he, hrecord⟩ := exists_record_of_push hp hext
      exact .inr ⟨i, e, he, hrecord ▸ .attachments⟩
  | compound =>
    obtain ⟨hno, -⟩ | ⟨-, hmerge, -⟩ | ⟨-, -, g, hp, hb⟩ := plant_compound_cases hplant
    · exact absurd hadmits hno
    · exact .inl (hplace.merges_iff.1 hmerge)
    · have hstays := (plantAll_grown _ hb).extends.trans hext
      obtain ⟨i, e, he, hrecord⟩ := exists_record_of_push hp hstays
      exact .inr ⟨i, e, he, hrecord ▸ .compound⟩

end Forest

namespace Rules

variable {r : Rules} {root : Node} {outer : Option Span} {p : Piece} {x : Record} {s : Scope}
  {f : Forest}

/-- A piece that gives a record is drawn as a sketch that stores the record. -/
theorem Gives.exists_drawn (h : r.Gives p x) : ∃ k, r.Drawn p k ∧ k.Stores x := by
  cases h with
  | @statement start n _ =>
    cases hc : r.isCompound n with
    | false => exact ⟨_, .simple hc, .simple⟩
    | true => exact ⟨_, .compound hc, .compound⟩
  | fragment => exact ⟨_, .fragment, .fragment⟩
  | attachments => exact ⟨_, .attachments, .attachments⟩

/-- What the walk comes to becomes a statement if the scope admits it, but what has the span of the
statement around it is merged into that one. -/
theorem exists_record_of_reaches (hroot : root.WellPlaced)
    (hf : Forest.ofSketch s (r.sketchRoot root) = .ok f) (h : r.Reaches root outer p)
    (hgives : r.Gives p x) (hadmits : s.Admits x.span x.compound) :
    outer = some x.span ∨ ∃ i e, f.get? i = some e ∧ r.Gives p e.record := by
  obtain ⟨k, hd, hx⟩ := hgives.exists_drawn
  have hk := occurs_iff_reaches.2 ⟨p, h, hd⟩
  have hks := (wellPlaced_sketchRoot (r := r) hroot).2
  rcases Forest.exists_record_of_occurs hk hks hf hx hadmits with merged | ⟨i, e, he, hstores⟩
  · exact .inl merged
  · exact .inr ⟨i, e, he, hd.gives hstores⟩

end Rules

/-- A query of the whole source admits whatever lies in it. -/
theorem Scope.admits_of_stop_le {n : Nat} {policy : RangePolicy} {span : Span} {compound : Bool}
    (hsolid : span.start < span.stop) (hstop : span.stop ≤ n) :
    (⟨⟨0, n⟩, policy⟩ : Scope).Admits span compound := by
  have hcovers : (⟨0, n⟩ : Span).Covers span :=
    ⟨Nat.lt_of_le_of_lt (Nat.zero_le _) (Nat.lt_of_lt_of_le hsolid hstop), Nat.zero_le _, hstop⟩
  exact ⟨hcovers.meets (Nat.not_le.2 hsolid), fun _ => .inr hcovers⟩

end StatementOutline
