import StatementOutline.Proofs.Building
import StatementOutline.Proofs.Lineage
import StatementOutline.Proofs.Origins

/-!
# Asking again

Once the outline of a whole source is known, some other outlines of it are known, too. A cursor
gives the path to the statement that owns it. A range that the outline reports gives the statement
with that range, those around it and those inside it.

* `chain_of_point`, `lineage_of_span`: the same of a byte and of a span in bytes;
* `cursor_path`: the outline of a cursor;
* `lineage_of_range`: the outline of a reported range, the same by either policy.
-/

namespace StatementOutline

open Record

namespace Forest

variable {l : Language} {root : Node} {length byte n : Nat} {f : Forest} {e : Entry}

/-- A point selects a chain of statements: the path to the innermost one that owns it. -/
theorem chain_of_point (hroot : root.WellPlaced) (hlength : root.stop ≤ length)
    (hbyte : byte ≤ length)
    (hf : ofSketch (Scope.whole length) (l.rules.sketchRoot root) = .ok f) :
    ∃ g, ofSketch ⟨⟨byte, byte⟩, .intersecting⟩ (l.rules.sketchRoot root) = .ok g ∧ g.IsChain ∧
      g.records = pick (f.pathTo (f.innermost? byte)) f.records ∧
      (g.size = 0 ↔ f.innermost? byte = none) := by
  have hs := sound_of_ofSketch hf
  obtain ⟨g, hg, hrecords, hkept⟩ :=
    restricted_of_ofSketch (s := ⟨⟨byte, byte⟩, .intersecting⟩) hroot hlength hbyte hf
  rw [hs.restrict_point (preordered_of_ofSketch hf) hkept] at hrecords
  have owned : ∀ r ∈ g.records, r.span.Owns byte := fun r hr =>
    keeps_point_iff.1 (Scope.keeps_iff.2 (admits_of_ofSketch hg r hr))
  refine ⟨g, hg, (sound_of_ofSketch hg).isChain owned, hrecords, ?_⟩
  rw [← length_records, hrecords, List.length_eq_zero_iff, pick, List.filterMap_eq_nil_iff]
  cases hid : f.innermost? byte with
  | none => simp [pathTo]
  | some id =>
    obtain ⟨r, hr, -⟩ := (hs.innermost byte).owns id hid
    simp only [reduceCtorEq, iff_false]
    intro h
    have := h id (hs.mem_pathTo_iff.2 ⟨id, rfl, .inl rfl⟩)
    simp [hr] at this

/-- The span of a statement selects that statement, those around it and those inside it, by either
policy. -/
theorem lineage_of_span (hroot : root.WellPlaced) (hlength : root.stop ≤ length)
    (hf : ofSketch (Scope.whole length) (l.rules.sketchRoot root) = .ok f)
    (he : f.get? n = some e) :
    ∃ g, g.records = pick (f.lineage n) f.records ∧
      ∀ policy, ofSketch ⟨e.span, policy⟩ (l.rules.sketchRoot root) = .ok g := by
  have hs := sound_of_ofSketch hf
  have inside : e.span.stop ≤ length := by
    obtain ⟨hrow, hw⟩ := Rules.wellPlaced_sketchRoot (r := l.rules) hroot
    have within := (plantAll_within _ hrow (Sketch.allWellPlaced_iff.2 hw) hf).forall_of_empty
    exact Nat.le_trans (within _ (List.mem_of_getElem? (records_of_get? he))).2 hlength
  have selected : ∀ policy, ∃ g, ofSketch ⟨e.span, policy⟩ (l.rules.sketchRoot root) = .ok g ∧
      g.records = pick (f.lineage n) f.records := by
    intro policy
    obtain ⟨g, hg, hrecords, hkept⟩ :=
      restricted_of_ofSketch (s := ⟨e.span, policy⟩) hroot hlength inside hf
    rw [hs.restrict_span (preordered_of_ofSketch hf) (compoundParents_of_ofSketch hf) he hkept]
      at hrecords
    exact ⟨g, hg, hrecords⟩
  obtain ⟨g, hg, hrecords⟩ := selected .intersecting
  refine ⟨g, hrecords, fun policy => ?_⟩
  obtain ⟨g', hg', hrecords'⟩ := selected policy
  have same : g' = g := (sound_of_ofSketch hg').eq_of_records (sound_of_ofSketch hg)
    (hrecords'.trans hrecords.symm)
  rwa [← same]

end Forest

namespace Outline

open Text

variable {language : Language} {source : String} {unit : OffsetUnit} {limit : UInt64} {root : Node}
  {full : Outline} {n p : Nat} {e : Entry}

/-- The outline of a whole source holds the forest of all of its bytes. -/
theorem whole_of_ofTree
    (h : ofTree language source (wholeQuery source unit) ⟨unit, .intersecting, limit⟩ root =
      .ok full) :
    totalBytes source.toList ≤ limit.toNat ∧ full.offsets = Offsets.ofSource source unit ∧
      Forest.ofSketch (Scope.whole (totalBytes source.toList)) (language.rules.sketchRoot root) =
        .ok full.forest := by
  obtain ⟨accepted, f, hf, rfl⟩ := ofTree_eq_ok_iff.1 h
  rw [scopeOf_wholeQuery accepted.size_lt] at hf
  exact ⟨accepted.small, rfl, hf⟩

/-- A string with a character of two bytes and one of four, and behind it a block in a block. -/
def accents : String :=
  .ofList ['"', 'é', '😀', '"', ';', '\x7b', '\x7b', '\x7d', '\x7d']

/-- The statement with the string. -/
def accentsText : Node :=
  .mk ⟨"expression_statement", none, ⟨0, 9⟩, true, false, false, false, false⟩
    [.mk ⟨"string_literal", none, ⟨0, 8⟩, true, false, false, false, false⟩ [],
      .mk ⟨";", none, ⟨8, 9⟩, false, false, false, false, false⟩ []]

/-- The tree of that source in C. -/
def accentsRoot : Node :=
  .mk ⟨"translation_unit", none, ⟨0, 13⟩, true, false, false, false, false⟩
    [accentsText, Forest.braces 9 13 [Forest.braces 10 12 []]]

def accentsForest : Forest :=
  ⟨#[⟨"expression_statement", ⟨0, 9⟩, false, none, #[]⟩,
    ⟨"compound_statement", ⟨9, 13⟩, true, none, #[2]⟩,
    ⟨"compound_statement", ⟨10, 12⟩, true, some 1, #[]⟩], #[0, 1]⟩

theorem toList_accents :
    accents.toList = ['"', 'é', '😀', '"', ';', '\x7b', '\x7b', '\x7d', '\x7d'] :=
  String.toList_ofList

theorem sketchRoot_accents : Language.c.rules.sketchRoot accentsRoot =
    [.simple "expression_statement" ⟨0, 9⟩,
      .compound "compound_statement" ⟨9, 13⟩ [.compound "compound_statement" ⟨10, 12⟩ []]] := by
  have outer : Language.c.rules.blockPieces (Forest.braces 9 13 [Forest.braces 10 12 []]) =
      [.statement 10 (Forest.braces 10 12 [])] := rfl
  have inner : Language.c.rules.blockPieces (Forest.braces 10 12 []) = [] := rfl
  have top : Language.c.rules.rootPieces accentsRoot = [.statement 0 accentsText,
      .statement 9 (Forest.braces 9 13 [Forest.braces 10 12 []])] := rfl
  simp only [Rules.sketchRoot, top, Rules.sketchAll, List.flatMap_cons, List.flatMap_nil]
  rw [Rules.sketch_of_simple rfl, Rules.sketch_of_members rfl, outer]
  simp only [Rules.sketchAll, List.flatMap_cons, List.flatMap_nil]
  rw [Rules.sketch_of_members rfl, inner]
  rfl

theorem placed_accents : accentsRoot.WellPlaced := by decide

theorem ends_accents : accentsRoot.EndsIn (IsBoundary accents.toList) := by
  rw [toList_accents]
  decide

theorem totalBytes_accents : totalBytes accents.toList = 13 := by
  rw [toList_accents]
  rfl

theorem small_accents : totalBytes accents.toList ≤ (100 : UInt64).toNat := by
  rw [totalBytes_accents]
  decide

theorem unitLen_accents : (Offsets.ofSource accents .utf16).unitLen = 10 := by
  show totalUnits accents.toList = 10
  rw [toList_accents]
  rfl

/-- The outline of that source. -/
def accentsOutline : Outline :=
  holding .c accents (wholeQuery accents .utf16) ⟨.utf16, .intersecting, 100⟩ accentsRoot
    accentsForest

theorem ofTree_accents : ofTree .c accents (wholeQuery accents .utf16)
    ⟨.utf16, .intersecting, 100⟩ accentsRoot = .ok accentsOutline := by
  have accepted : Accepted accents (wholeQuery accents .utf16) ⟨.utf16, .intersecting, 100⟩ :=
    ⟨small_accents, Nat.zero_le _, Nat.le_refl _⟩
  refine ofTree_eq_ok_iff.2 ⟨accepted, accentsForest, ?_, rfl⟩
  rw [scopeOf_wholeQuery accepted.size_lt, totalBytes_accents, sketchRoot_accents]
  rfl

/-- An empty query gives a chain of statements: the path from the top to the one that the outline of
the whole source has at that offset, and nothing if there is none. -/
theorem cursor_path (hroot : root.WellPlaced) (hlength : root.stop ≤ totalBytes source.toList)
    (hfull : ofTree language source (wholeQuery source unit) ⟨unit, .intersecting, limit⟩ root =
      .ok full)
    (hp : p ≤ (Offsets.ofSource source unit).unitLen) :
    ∃ cursor, ofTree language source ⟨p, p⟩ ⟨unit, .intersecting, limit⟩ root = .ok cursor ∧
      cursor.forest.IsChain ∧
      cursor.forest.records = pick (full.forest.pathTo (full.statementAt? p)) full.forest.records ∧
      (cursor.size = 0 ↔ full.statementAt? p = none) := by
  obtain ⟨small, hoffsets, hf⟩ := whole_of_ofTree hfull
  have accepted : Accepted source ⟨p, p⟩ ⟨unit, .intersecting, limit⟩ := ⟨small, Nat.le_refl p, hp⟩
  have hbyte : (Offsets.ofSource source unit).toByte p ≤ totalBytes source.toList :=
    stop_scopeOf_le source ⟨p, p⟩ ⟨unit, .intersecting, limit⟩
  obtain ⟨g, hg, hchain, hrecords, hempty⟩ := Forest.chain_of_point hroot hlength hbyte hf
  have asked : full.statementAt? p =
      full.forest.innermost? ((Offsets.ofSource source unit).toByte p) := by
    rw [statementAt?, hoffsets]
  rw [← asked] at hrecords hempty
  exact ⟨_, ofTree_eq_ok_iff.2 ⟨accepted, g, hg, rfl⟩, hchain, hrecords, hempty⟩

theorem cursor_path_accents : accentsRoot.WellPlaced ∧
    accentsRoot.stop ≤ totalBytes accents.toList ∧
    8 ≤ (Offsets.ofSource accents .utf16).unitLen ∧
    ∃ cursor, ofTree .c accents ⟨8, 8⟩ ⟨.utf16, .intersecting, 100⟩ accentsRoot = .ok cursor ∧
      cursor.forest.IsChain ∧
      cursor.forest.records =
        pick (accentsForest.pathTo (accentsOutline.statementAt? 8)) accentsForest.records ∧
      (cursor.size = 0 ↔ accentsOutline.statementAt? 8 = none) := by
  have inside : accentsRoot.stop ≤ totalBytes accents.toList := Nat.le_of_eq totalBytes_accents.symm
  have cursor : 8 ≤ (Offsets.ofSource accents .utf16).unitLen := by
    rw [unitLen_accents]
    decide
  exact ⟨placed_accents, inside, cursor, cursor_path placed_accents inside ofTree_accents cursor⟩

/-- The range that an outline of a whole source reports for a statement gives, as a query, that
statement with those around it and those inside it. The policies agree on it. -/
theorem lineage_of_range (hroot : root.WellPlaced)
    (hends : root.EndsIn (IsBoundary source.toList))
    (hfull : ofTree language source (wholeQuery source unit) ⟨unit, .intersecting, limit⟩ root =
      .ok full)
    (he : full.get? n = some e) :
    ∃ f, f.records = pick (full.forest.lineage n) full.forest.records ∧ ∀ policy, ∃ o,
      ofTree language source (full.rangeOf e) ⟨unit, policy, limit⟩ root = .ok o ∧
        o.forest = f := by
  obtain ⟨small, hoffsets, hf⟩ := whole_of_ofTree hfull
  have hsize : totalBytes source.toList < UInt64.size := Nat.lt_of_le_of_lt small limit.toNat_lt
  obtain ⟨_, hlast⟩ := hends.ends.2
  obtain ⟨⟨_, hstart⟩, _, hstop⟩ := Forest.endsIn_of_get? hf hends he
  have solid : e.span.start < e.span.stop :=
    (Forest.sound_of_ofSketch hf).fitted.solid (Forest.records_of_get? he)
  obtain ⟨f, hrecords, hpolicy⟩ := Forest.lineage_of_span hroot hlast.le.1 hf he
  refine ⟨f, hrecords, fun policy => ?_⟩
  have reported : full.rangeOf e = (Offsets.ofSource source unit).ofBytes e.span := by
    rw [rangeOf, hoffsets]
  have understood : (Offsets.ofSource source unit).toBytes (full.rangeOf e) = e.span := by
    rw [reported, Offsets.toBytes_ofBytes hstart hstop hsize]
  have accepted : Accepted source (full.rangeOf e) ⟨unit, policy, limit⟩ := by
    rw [reported]
    exact ⟨small, Offsets.ofByte_le_ofByte hstart hstop (Nat.le_of_lt solid),
      Offsets.ofByte_le_unitLen _ _⟩
  refine ⟨_, ofTree_eq_ok_iff.2 ⟨accepted, f, ?_, rfl⟩, forest_holding⟩
  rw [scopeOf, understood]
  exact hpolicy policy

/-- The block in the block is reported from unit 7 to unit 9. -/
theorem lineage_of_range_accents : accentsRoot.WellPlaced ∧
    accentsRoot.EndsIn (IsBoundary accents.toList) ∧
    ∃ e, accentsOutline.get? 2 = some e ∧ ∃ f,
      f.records = pick (accentsForest.lineage 2) accentsForest.records ∧ ∀ policy, ∃ o,
        ofTree .c accents (accentsOutline.rangeOf e) ⟨.utf16, policy, 100⟩ accentsRoot = .ok o ∧
          o.forest = f :=
  ⟨placed_accents, ends_accents, _, rfl,
    lineage_of_range placed_accents ends_accents ofTree_accents rfl⟩

end Outline

end StatementOutline
