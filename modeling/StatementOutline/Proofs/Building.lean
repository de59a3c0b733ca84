import StatementOutline.Outline
import StatementOutline.Proofs.Boundaries
import StatementOutline.Proofs.Scoping

/-!
# Building an outline

An outline is made if its source is small enough and its query lies inside the source. Whether it is
then built, and with which statements, depends only on the scope that the query comes to in bytes.

* `ofTree_eq_ok_iff`: when an outline is built and what it holds;
* `scopeOf_wholeQuery`: the query of a whole source comes to all of its bytes.
-/

namespace StatementOutline.Outline

open Text

variable {language : Language} {source : String} {query : Span} {settings : Settings} {root : Node}
  {o : Outline} {f : Forest} {unit : OffsetUnit} {policy : RangePolicy} {limit : UInt64}

/-- An outline that is made and built at once. -/
def ofTree (language : Language) (source : String) (query : Span) (settings : Settings)
    (root : Node) : Except Failure Outline :=
  match create language source query settings with
  | .error failure => .error failure
  | .ok o => o.build root

/-- The source is small enough for the settings, and the query lies inside it. -/
structure Accepted (source : String) (query : Span) (settings : Settings) : Prop where
  small : totalBytes source.toList ≤ settings.limit.toNat
  ordered : query.start ≤ query.stop
  inside : query.stop ≤ (Offsets.ofSource source settings.unit).unitLen

/-- The scope of a query. -/
def scopeOf (source : String) (query : Span) (settings : Settings) : Scope :=
  ⟨(Offsets.ofSource source settings.unit).toBytes query, settings.policy⟩

/-- The outline with given statements. -/
def holding (language : Language) (source : String) (query : Span) (settings : Settings)
    (root : Node) (f : Forest) : Outline :=
  let offsets := Offsets.ofSource source settings.unit
  ⟨language, source, query, offsets.toBytes query, settings, offsets,
    some ⟨⟨language, source, root⟩, f⟩⟩

@[simp]
theorem forest_holding : (holding language source query settings root f).forest = f := rfl

theorem Accepted.size_lt (h : Accepted source query settings) :
    totalBytes source.toList < UInt64.size :=
  Nat.lt_of_le_of_lt h.small settings.limit.toNat_lt

/-- An accepted query is built as far as planting goes. -/
theorem ofTree_of_accepted (h : Accepted source query settings) :
    ofTree language source query settings root =
      match Forest.ofSketch (scopeOf source query settings) (language.rules.sketchRoot root) with
      | .error v => .error (.inconsistent v.message)
      | .ok f => .ok (holding language source query settings root f) := by
  have small : ¬ settings.limit.toNat < totalBytes source.toList := Nat.not_lt.2 h.small
  have range : ¬ (query.stop < query.start ∨
      (Offsets.ofSource source settings.unit).unitLen < query.stop) :=
    not_or.2 ⟨Nat.not_lt.2 h.ordered, Nat.not_lt.2 h.inside⟩
  simp only [ofTree, create, if_neg small, if_neg range]
  rfl

/-- A query that is not accepted fails for another reason than planting. -/
theorem ofTree_of_not_accepted (language : Language) (root : Node)
    (h : ¬ Accepted source query settings) :
    ∃ failure, ofTree language source query settings root = .error failure ∧
      ∀ message, failure ≠ .inconsistent message := by
  by_cases small : settings.limit.toNat < totalBytes source.toList
  · refine ⟨.sourceTooLarge (totalBytes source.toList) settings.limit.toNat, ?_, by simp⟩
    simp only [ofTree, create, if_pos small]
  · have range : query.stop < query.start ∨
        (Offsets.ofSource source settings.unit).unitLen < query.stop := by
      by_contra hrange
      obtain ⟨ordered, inside⟩ := not_or.1 hrange
      exact h ⟨Nat.not_lt.1 small, Nat.not_lt.1 ordered, Nat.not_lt.1 inside⟩
    refine ⟨.invalidRange query (Offsets.ofSource source settings.unit).unitLen, ?_, by simp⟩
    simp only [ofTree, create, if_neg small, if_pos range]

/-- An outline is built when its query is accepted and planting succeeds. -/
theorem ofTree_eq_ok_iff :
    ofTree language source query settings root = .ok o ↔ Accepted source query settings ∧ ∃ f,
      Forest.ofSketch (scopeOf source query settings) (language.rules.sketchRoot root) = .ok f ∧
        o = holding language source query settings root f := by
  by_cases h : Accepted source query settings
  · rw [ofTree_of_accepted h]
    cases Forest.ofSketch (scopeOf source query settings) (language.rules.sketchRoot root) with
    | error v => simp
    | ok f => simp [h, eq_comm]
  · obtain ⟨failure, hfailure, -⟩ := ofTree_of_not_accepted language root h
    simp [hfailure, h]

/-- The query of a whole source. -/
def wholeQuery (source : String) (unit : OffsetUnit) : Span :=
  ⟨0, (Offsets.ofSource source unit).unitLen⟩

theorem scopeOf_wholeQuery (hsize : totalBytes source.toList < UInt64.size) :
    scopeOf source (wholeQuery source unit) ⟨unit, .intersecting, limit⟩ =
      Scope.whole (totalBytes source.toList) := by
  simp only [scopeOf, wholeQuery, Offsets.toBytes, Offsets.toByte_zero hsize,
    Offsets.toByte_unitLen hsize, Scope.whole]

/-- A byte that a caller's offset stands for lies inside the source. -/
theorem stop_scopeOf_le (source : String) (query : Span) (settings : Settings) :
    (scopeOf source query settings).query.stop ≤ totalBytes source.toList := by
  simp only [scopeOf, Offsets.toBytes, Offsets.toByte]
  cases settings.unit <;> exact Nat.min_le_right _ _

end StatementOutline.Outline
