import Mathlib.Data.List.Sort
import StatementOutline.Proofs.Lookup
import StatementOutline.Proofs.Scoping

/-!
# Points and spans as queries

A point selects the statements that own it, and the span of a statement selects those that have
text in common with that statement. Spans of a forest are nested or apart, so the former are a path
down from the top, and the latter are what lies around the statement and what lies inside it.

* `restrict_eq_pick`: a restriction in terms of the positions that it keeps;
* `Sound.mem_descendants_iff`: the statements inside a statement;
* `Sound.restrict_point`: what a point selects;
* `Sound.restrict_span`: what the span of a statement selects, by either policy.
-/

namespace StatementOutline

namespace Record

variable {keep : Record → Bool} {rs : List Record} {ids : List Nat} {i p : Nat} {r : Record}

/-! ## Records by position -/

/-- The records at some positions. A parent goes by its place among these positions. -/
def pick (ids : List Nat) (rs : List Record) : List Record :=
  ids.filterMap fun i => rs[i]?.map fun r => { r with parent := r.parent.map ids.idxOf }

theorem filterMap_range' (rs : List Record) (start count : Nat) :
    (List.range' start count).filterMap (rs[·]?) = (rs.drop start).take count := by
  induction count generalizing start with
  | zero => simp
  | succ count ih =>
    rw [List.range'_succ, List.filterMap_cons, ih]
    cases hr : rs[start]? with
    | none =>
      have short := List.getElem?_eq_none_iff.1 hr
      rw [List.drop_eq_nil_of_le short, List.drop_eq_nil_of_le (Nat.le_succ_of_le short)]
      simp
    | some r =>
      obtain ⟨hlt, rfl⟩ := List.getElem?_eq_some_iff.1 hr
      rw [List.drop_eq_getElem_cons hlt, List.take_succ_cons]

theorem take_eq_filterMap (rs : List Record) (n : Nat) :
    rs.take n = (List.range n).filterMap (rs[·]?) := by
  rw [List.range_eq_range', filterMap_range', List.drop_zero]

/-- The positions of the records with a property. -/
def keptIds (keep : Record → Bool) (rs : List Record) : List Nat :=
  (List.range rs.length).filter fun i => rs[i]?.any keep

theorem pairwise_keptIds : (keptIds keep rs).Pairwise (· < ·) :=
  List.pairwise_lt_range.filter _

theorem mem_keptIds : i ∈ keptIds keep rs ↔ ∃ r, rs[i]? = some r ∧ keep r = true := by
  simp only [keptIds, List.mem_filter, List.mem_range, Option.any_eq_true]
  constructor
  · exact fun h => h.2
  · rintro ⟨r, hr, hk⟩
    exact ⟨(List.getElem?_eq_some_iff.1 hr).1, r, hr, hk⟩

/-- A kept record comes behind as many positions as its rank says. -/
theorem idxOf_keptIds (hr : rs[i]? = some r) (hk : keep r = true) :
    (keptIds keep rs).idxOf i = rank keep rs i := by
  obtain ⟨hi, -⟩ := List.getElem?_eq_some_iff.1 hr
  have split : List.range rs.length =
      List.range i ++ i :: (List.range' (i + 1) (rs.length - (i + 1))) := by
    rw [List.range_eq_range', List.range_eq_range', ← List.range'_succ]
    have : rs.length = i + (rs.length - (i + 1) + 1) := by omega
    conv => lhs; rw [this]
    rw [← List.range'_append_1, Nat.zero_add]
  have front : i ∉ (List.range i).filter fun j => rs[j]?.any keep := by
    simp
  rw [keptIds, split, List.filter_append, List.idxOf_append_of_notMem front,
    List.filter_cons_of_pos (by simp [hr, hk]), List.idxOf_cons_self, Nat.add_zero, rank,
    take_eq_filterMap, List.countP_filterMap, ← List.countP_eq_length_filter]
  congr 1
  funext j
  cases rs[j]? <;> rfl

/-- A restriction consists of the records at the positions that it keeps. -/
theorem restrict_eq_pick (hrs : ParentsKept keep rs) (sorted : ids.Pairwise (· < ·))
    (hids : ∀ i, i ∈ ids ↔ ∃ r, rs[i]? = some r ∧ keep r = true) :
    restrict keep rs = pick ids rs := by
  obtain rfl : ids = keptIds keep rs :=
    sorted.eq_of_mem_iff pairwise_keptIds fun i => (hids i).trans mem_keptIds.symm
  have all : rs = (List.range rs.length).filterMap (rs[·]?) := by
    rw [← take_eq_filterMap, List.take_length]
  have kept : rs.filter keep = (keptIds keep rs).filterMap (rs[·]?) := by
    conv => lhs; rw [all]
    rw [List.filter_filterMap, keptIds, List.filterMap_filter]
    congr 1
    funext i
    cases rs[i]? <;> simp [Option.filter]
  rw [restrict, kept, pick, List.map_filterMap]
  apply List.filterMap_congr
  intro i hi
  obtain ⟨r, hr, hk⟩ := mem_keptIds.1 hi
  have hparent : r.parent.map (rank keep rs) = r.parent.map (keptIds keep rs).idxOf := by
    cases hp : r.parent with
    | none => rfl
    | some p =>
      obtain ⟨outer, ho, hko⟩ := hrs i r hr hk p hp
      exact congrArg some (idxOf_keptIds ho hko).symm
  rw [hr, Option.map_some, Option.map_some, renumber, hparent]

end Record

namespace Forest

open Record

variable {f g : Forest} {byte i j n : Nat} {e : Entry} {r : Record} {policy : RangePolicy}

/-! ## Paths and lineages -/

/-- The statements from the top down to a statement. -/
def pathTo (f : Forest) : Option Nat → List Nat
  | none => []
  | some id => (id :: f.ancestors id).reverse

/-- The statements around a statement, from the top, then itself and those inside it. -/
def lineage (f : Forest) (id : Nat) : List Nat :=
  f.pathTo (some id) ++ f.descendants id

theorem Sound.mem_pathTo_iff (hf : f.Sound) {id : Option Nat} :
    j ∈ f.pathTo id ↔ ∃ i, id = some i ∧ (j = i ∨ Under f.records j i) := by
  cases id with
  | none => simp [pathTo]
  | some i => simp [pathTo, hf.mem_ancestors_iff, or_comm]

theorem Sound.pairwise_ancestors (hf : f.Sound) (i : Nat) :
    (i :: f.ancestors i).Pairwise (fun a b => b < a) := by
  induction i using Nat.strongRecOn with
  | ind i ih =>
    have below : ∀ j ∈ f.ancestors i, j < i := by
      intro j hj
      exact (hf.mem_ancestors_iff.1 hj).lt hf.fitted
    refine List.pairwise_cons.2 ⟨below, ?_⟩
    unfold ancestors
    split
    · exact .nil
    · next p hp =>
      split
      · next hlt => exact ih p hlt
      · exact .nil

theorem Sound.pairwise_pathTo (hf : f.Sound) (id : Option Nat) :
    (f.pathTo id).Pairwise (· < ·) := by
  cases id with
  | none => exact .nil
  | some i => exact List.pairwise_reverse.2 (hf.pairwise_ancestors i)

/-- Where the test holds on a front part, the front part is all on which it holds. -/
theorem takeWhile_eq_filter {α : Type} {test : α → Bool} {xs : List α}
    (h : xs.Pairwise fun a b => test b = true → test a = true) :
    xs.takeWhile test = xs.filter test := by
  induction xs with
  | nil => rfl
  | cons x xs ih =>
    obtain ⟨hx, hxs⟩ := List.pairwise_cons.1 h
    by_cases ht : test x = true
    · rw [List.takeWhile_cons_of_pos ht, List.filter_cons_of_pos ht, ih hxs]
    · have hnone : xs.filter test = [] := by
        rw [List.filter_eq_nil_iff]
        exact fun y hy hty => ht (hx y hy hty)
      rw [List.takeWhile_cons_of_neg ht, List.filter_cons_of_neg ht, hnone]

/-- Behind a statement those that start before its end are those below it. -/
theorem Sound.starts_before_iff (hf : f.Sound) (ho : Preordered f.records)
    (he : f.get? i = some e) (hij : i < j) (hj : j < f.size) :
    ((f.span? j).any fun s => decide (s.start < e.span.stop)) = true ↔ Under f.records i j := by
  obtain ⟨r, hr⟩ : ∃ r, f.records[j]? = some r :=
    ⟨_, List.getElem?_eq_getElem (by rwa [length_records])⟩
  have hi := records_of_get? he
  rw [any_span?_iff (P := fun s => s.start < e.span.stop) hr]
  constructor
  · intro hstart
    obtain h | h := under_or_before hf.fitted ho hi hr hij
    · exact h
    · exact absurd hstart (Nat.not_lt.2 h)
  · intro h
    have hin := (h.strictlyInside hf.fitted hi hr).2.1
    exact Nat.lt_of_lt_of_le (hf.fitted.solid hr) hin

theorem Sound.descendants_eq_filter (hf : f.Sound) (ho : Preordered f.records)
    (he : f.get? i = some e) :
    f.descendants i = (List.range' (i + 1) (f.size - (i + 1))).filter fun j =>
      (f.span? j).any fun s => decide (s.start < e.span.stop) := by
  simp only [descendants, he]
  apply takeWhile_eq_filter
  have sorted : (List.range' (i + 1) (f.size - (i + 1))).Pairwise (· < ·) :=
    List.pairwise_lt_range'
  refine sorted.imp_of_mem ?_
  intro a b ha hb hab hstart
  rw [List.mem_range'_1] at ha hb
  have hia : i < a := by omega
  have hbf : b < f.size := by omega
  rw [hf.starts_before_iff ho he (Nat.lt_trans hia hab) hbf] at hstart
  rw [hf.starts_before_iff ho he hia (Nat.lt_trans hab hbf)]
  exact hstart.of_between hf.fitted ho hia hab

/-- The statements inside a statement are those below it. -/
theorem Sound.mem_descendants_iff (hf : f.Sound) (ho : Preordered f.records)
    (he : f.get? i = some e) : j ∈ f.descendants i ↔ Under f.records i j := by
  rw [hf.descendants_eq_filter ho he, List.mem_filter, List.mem_range'_1]
  constructor
  · rintro ⟨⟨hij, hj⟩, hstart⟩
    exact (hf.starts_before_iff ho he (by omega) (by omega)).1 hstart
  · intro h
    have hij := h.lt hf.fitted
    obtain ⟨r, hr⟩ := h.exists_record
    obtain ⟨hj, -⟩ := List.getElem?_eq_some_iff.1 hr
    rw [length_records] at hj
    exact ⟨by omega, (hf.starts_before_iff ho he hij hj).2 h⟩

theorem Sound.mem_lineage_iff (hf : f.Sound) (ho : Preordered f.records)
    (he : f.get? i = some e) :
    j ∈ f.lineage i ↔ j = i ∨ Under f.records j i ∨ Under f.records i j := by
  rw [lineage, List.mem_append, hf.mem_pathTo_iff, hf.mem_descendants_iff ho he]
  simp [or_assoc]

theorem Sound.pairwise_lineage (hf : f.Sound) (ho : Preordered f.records)
    (he : f.get? i = some e) : (f.lineage i).Pairwise (· < ·) := by
  refine List.pairwise_append.2 ⟨hf.pairwise_pathTo _, ?_, ?_⟩
  · rw [hf.descendants_eq_filter ho he]
    exact List.Pairwise.filter _ List.pairwise_lt_range'
  · intro a ha b hb
    have hib := ((hf.mem_descendants_iff ho he).1 hb).lt hf.fitted
    obtain ⟨_, ⟨⟩, rfl | hai⟩ := hf.mem_pathTo_iff.1 ha
    · exact hib
    · exact Nat.lt_trans (hai.lt hf.fitted) hib

/-! ## What is selected -/

/-- Every statement has at most one child, and at most one is at the top. -/
def IsChain (f : Forest) : Prop :=
  ∀ parent, (f.childrenOf parent).size ≤ 1

/-- Statements that have a byte in common are a chain: siblings have none. -/
theorem Sound.isChain (hf : f.Sound) (h : ∀ r ∈ f.records, r.span.Owns byte) : f.IsChain := by
  intro parent
  refine Nat.le_of_not_lt fun hlt => ?_
  have first := Array.getElem?_eq_getElem (Nat.lt_trans Nat.one_pos hlt)
  have second := Array.getElem?_eq_getElem hlt
  obtain ⟨x, hx, -⟩ := hf.mem_level_iff.1 (Array.mem_of_getElem? first)
  obtain ⟨r, hr, -⟩ := hf.mem_level_iff.1 (Array.mem_of_getElem? second)
  have after := hf.level_after Nat.one_pos first second hx hr
  have := (h x (List.mem_of_getElem? hx)).2
  have := (h r (List.mem_of_getElem? hr)).1
  omega

theorem keeps_point_iff :
    Scope.keeps ⟨⟨byte, byte⟩, .intersecting⟩ r = true ↔ r.span.Owns byte := by
  simp [Scope.Admits, Span.Meets]

/-- A point selects the path to the innermost statement that owns it. -/
theorem Sound.restrict_point (hf : f.Sound) (ho : Preordered f.records)
    (hp : ParentsKept (Scope.keeps ⟨⟨byte, byte⟩, .intersecting⟩) f.records) :
    restrict (Scope.keeps ⟨⟨byte, byte⟩, .intersecting⟩) f.records =
      pick (f.pathTo (f.innermost? byte)) f.records := by
  apply restrict_eq_pick hp (hf.pairwise_pathTo _)
  intro i
  simp only [keeps_point_iff]
  exact hf.mem_pathTo_iff.trans (hf.owns_iff_of_innermost? ho).symm

/-- A record has children only if it is compound. -/
theorem CompoundParents.of_under (hc : f.CompoundParents) (h : Under f.records i j)
    (hr : f.records[i]? = some r) : r.compound = true := by
  obtain ⟨c, x, hx, hxp, -⟩ := h.exists_child
  obtain ⟨outer, ho, hcompound⟩ := hc c x hx i hxp
  obtain rfl := Option.some.inj (hr.symm.trans ho)
  exact hcompound

/-- The span of a statement, as a query, selects that statement with what lies around and inside it,
by either policy. -/
theorem Sound.restrict_span (hf : f.Sound) (ho : Preordered f.records) (hc : f.CompoundParents)
    (he : f.get? n = some e) (hp : ParentsKept (Scope.keeps ⟨e.span, policy⟩) f.records) :
    restrict (Scope.keeps ⟨e.span, policy⟩) f.records = pick (f.lineage n) f.records := by
  have hn := records_of_get? he
  have solid : e.span.start < e.span.stop := hf.fitted.solid hn
  have itself : e.span.Covers e.span := ⟨solid, Nat.le_refl _, Nat.le_refl _⟩
  have meets := itself.meets (Nat.not_le.2 solid)
  apply restrict_eq_pick hp (hf.pairwise_lineage ho he)
  intro i
  rw [hf.mem_lineage_iff ho he]
  constructor
  · rintro (rfl | h | h)
    · exact ⟨_, hn, Scope.keeps_iff.2 ⟨meets, fun _ => .inr itself⟩⟩
    · -- What lies around the statement is compound.
      obtain ⟨hlt, -⟩ := List.getElem?_eq_some_iff.1 hn
      have hr := List.getElem?_eq_getElem (Nat.lt_trans (h.lt hf.fitted) hlt)
      have hin := h.strictlyInside hf.fitted hr hn
      have around := meets.mono hin.1 hin.2.1
      exact ⟨_, hr, Scope.keeps_iff.2 ⟨around, fun _ => .inl (hc.of_under h hr)⟩⟩
    · obtain ⟨r, hr⟩ := h.exists_record
      have hin := h.strictlyInside hf.fitted hn hr
      have covers : e.span.Covers r.span := ⟨solid, hin.1, hin.2.1⟩
      have inside := covers.meets (Nat.not_le.2 (hf.fitted.solid hr))
      exact ⟨r, hr, Scope.keeps_iff.2 ⟨inside, fun _ => .inr covers⟩⟩
  · rintro ⟨r, hr, hk⟩
    have common := (Scope.keeps_iff.1 hk).1
    rw [Span.Meets, if_neg (Nat.not_le.2 solid)] at common
    obtain hlt | rfl | hgt := Nat.lt_trichotomy i n
    · obtain h | h := under_or_before hf.fitted ho hr hn hlt
      · exact .inr (.inl h)
      · exact absurd common.2 (Nat.not_lt.2 h)
    · exact .inl rfl
    · obtain h | h := under_or_before hf.fitted ho hn hr hgt
      · exact .inr (.inr h)
      · exact absurd common.1 (Nat.not_lt.2 h)

end Forest

end StatementOutline
