import StatementOutline.Forest

/-!
# Forests as lists of records

A forest says twice where a statement hangs: the statement names its parent, and its parent lists it
among its children. Read without the lists of children, a forest is a list of records, and a push
adds one record at the end.

* `childrenOf_append`: what a push does to the lists of children;
* `violation?_eq_none_iff`: in a sound forest a push breaks no rule exactly when the new record fits
  all records there are, although only the last sibling is looked at;
* `Sound.push`: a push keeps a forest sound;
* `Sound.eq_of_records`: the lists of children of a sound forest follow from its records.
-/

namespace StatementOutline

/-- A statement of a forest without the list of its children. -/
structure Record where
  kind : String
  span : Span
  compound : Bool
  parent : Option Nat
deriving DecidableEq

def Entry.record (e : Entry) : Record :=
  ⟨e.kind, e.span, e.compound, e.parent⟩

/-- The records of a forest, each at the position of its statement. -/
def Forest.records (f : Forest) : List Record :=
  f.entries.toList.map Entry.record

namespace Record

/-- The positions of the records under `parent`. -/
def childIds (rs : List Record) (parent : Option Nat) : List Nat :=
  (List.range rs.length).filter fun i => decide (rs[i]?.map Record.parent = some parent)

/-- The record may be added behind the others: it covers some text, lies strictly inside the one it
is put under, and starts where its siblings have ended. -/
structure Fits (rs : List Record) (r : Record) : Prop where
  solid : ¬ r.span.Empty
  inside : ∀ p, r.parent = some p → ∃ outer, rs[p]? = some outer ∧ r.span.StrictlyInside outer.span
  after : ∀ (i : Nat) x, rs[i]? = some x → x.parent = r.parent → x.span.stop ≤ r.span.start

/-- Each record fits those before it. -/
def Fitted (rs : List Record) : Prop :=
  ∀ (i : Nat) r, rs[i]? = some r → Fits (rs.take i) r

theorem mem_childIds {rs : List Record} {parent : Option Nat} {i : Nat} :
    i ∈ childIds rs parent ↔ ∃ r, rs[i]? = some r ∧ r.parent = parent := by
  simp only [childIds, List.mem_filter, List.mem_range, decide_eq_true_eq, Option.map_eq_some_iff]
  constructor
  · exact fun h => h.2
  · rintro ⟨r, hr, hp⟩
    obtain ⟨hi, -⟩ := List.getElem?_eq_some_iff.1 hr
    exact ⟨hi, r, hr, hp⟩

theorem childIds_append (rs : List Record) (r : Record) (parent : Option Nat) :
    childIds (rs ++ [r]) parent =
      childIds rs parent ++ if r.parent = parent then [rs.length] else [] := by
  have old : (List.range rs.length).filter
      (fun i => decide ((rs ++ [r])[i]?.map Record.parent = some parent)) = childIds rs parent := by
    apply List.filter_congr
    intro i hi
    rw [List.getElem?_append_left (List.mem_range.1 hi)]
  unfold childIds at old ⊢
  rw [List.length_append, List.length_singleton, List.range_succ, List.filter_append, old]
  by_cases h : r.parent = parent <;> simp [h]

/-- The position is that of a record with the property; the top counts as one. -/
def Holder (keep : Record → Bool) (rs : List Record) (parent : Option Nat) : Prop :=
  ∀ p, parent = some p → ∃ outer, rs[p]? = some outer ∧ keep outer = true

/-- A record that is there stays where it is. -/
theorem getElem?_append_some {rs new : List Record} {i : Nat} {x : Record} (h : rs[i]? = some x) :
    (rs ++ new)[i]? = some x := by
  obtain ⟨hi, -⟩ := List.getElem?_eq_some_iff.1 h
  rw [List.getElem?_append_left hi, h]

theorem Holder.append {keep : Record → Bool} {rs new : List Record} {parent : Option Nat}
    (h : Holder keep rs parent) : Holder keep (rs ++ new) parent := by
  intro p hp
  obtain ⟨outer, ho, hk⟩ := h p hp
  exact ⟨outer, getElem?_append_some ho, hk⟩

theorem holder_none {keep : Record → Bool} {rs : List Record} : Holder keep rs none := by
  intro p hp
  cases hp

/-- A record was there before, or is the one that was added. -/
theorem getElem?_concat_cases {rs : List Record} {i : Nat} {r x : Record}
    (h : (rs ++ [r])[i]? = some x) : rs[i]? = some x ∨ i = rs.length ∧ x = r := by
  by_cases hi : i < rs.length
  · left
    rwa [List.getElem?_append_left hi] at h
  · have hi := Nat.le_of_not_lt hi
    rw [List.getElem?_append_right hi] at h
    obtain ⟨hlt, rfl⟩ := List.getElem?_eq_some_iff.1 h
    exact .inr ⟨by simp at hlt; omega, by simp⟩

theorem pairwise_childIds (rs : List Record) (parent : Option Nat) :
    (childIds rs parent).Pairwise (· < ·) :=
  List.pairwise_lt_range.filter _

/-- Siblings are listed in the order of their positions, so the last one listed is the last one
added. -/
theorem le_of_getLast?_childIds {rs : List Record} {parent : Option Nat} {i last : Nat}
    (hl : (childIds rs parent).getLast? = some last) (hi : i ∈ childIds rs parent) : i ≤ last := by
  have sorted := pairwise_childIds rs parent
  obtain ⟨front, hfront⟩ := List.getLast?_eq_some_iff.1 hl
  rw [hfront] at hi sorted
  rcases List.mem_append.1 hi with hi | hi
  · exact Nat.le_of_lt ((List.pairwise_append.1 sorted).2.2 i hi last (by simp))
  · exact Nat.le_of_eq (List.mem_singleton.1 hi)

theorem Fits.parent_lt {rs : List Record} {r : Record} {p : Nat} (h : Fits rs r)
    (hp : r.parent = some p) : p < rs.length := by
  obtain ⟨outer, ho, -⟩ := h.inside p hp
  exact (List.getElem?_eq_some_iff.1 ho).1

theorem fitted_nil : Fitted [] := by
  intro i r h
  simp at h

theorem fitted_append {rs : List Record} {r : Record} :
    Fitted (rs ++ [r]) ↔ Fitted rs ∧ Fits rs r := by
  constructor
  · intro h
    constructor
    · intro i x hx
      obtain ⟨hi, -⟩ := List.getElem?_eq_some_iff.1 hx
      have := h i x (getElem?_append_some hx)
      rwa [List.take_append_of_le_length (Nat.le_of_lt hi)] at this
    · have := h rs.length r List.getElem?_concat_length
      rwa [List.take_left] at this
  · rintro ⟨h, hr⟩ i x hx
    obtain hx | ⟨rfl, rfl⟩ := getElem?_concat_cases hx
    · obtain ⟨hi, -⟩ := List.getElem?_eq_some_iff.1 hx
      rw [List.take_append_of_le_length (Nat.le_of_lt hi)]
      exact h i x hx
    · simpa using hr

/-! ## Records that fit -/

section
variable {rs : List Record} {i j p : Nat} {r x outer : Record}

theorem Fitted.solid (h : Fitted rs) (hr : rs[i]? = some r) : r.span.start < r.span.stop := by
  have := (h i r hr).solid
  unfold Span.Empty at this
  omega

/-- A record is put under an earlier one, strictly inside it. -/
theorem Fitted.inside (h : Fitted rs) (hr : rs[i]? = some r) (hp : r.parent = some p) :
    p < i ∧ ∃ outer, rs[p]? = some outer ∧ r.span.StrictlyInside outer.span := by
  obtain ⟨outer, ho, hin⟩ := (h i r hr).inside p hp
  rw [List.getElem?_take] at ho
  split at ho
  · next hpi => exact ⟨hpi, outer, ho, hin⟩
  · simp at ho

theorem Fitted.parent_lt (h : Fitted rs) (hr : rs[i]? = some r) (hp : r.parent = some p) : p < i :=
  (h.inside hr hp).1

theorem Fitted.strictlyInside (h : Fitted rs) (hr : rs[i]? = some r) (hp : r.parent = some p)
    (ho : rs[p]? = some outer) : r.span.StrictlyInside outer.span := by
  obtain ⟨-, outer', ho', hin⟩ := h.inside hr hp
  rw [ho] at ho'
  cases ho'
  exact hin

/-- Siblings follow one another. -/
theorem Fitted.after (h : Fitted rs) (hr : rs[j]? = some r) (hx : rs[i]? = some x) (hij : i < j)
    (hp : x.parent = r.parent) : x.span.stop ≤ r.span.start :=
  (h j r hr).after i x (by rw [List.getElem?_take, if_pos hij, hx]) hp

end

end Record

open Record

namespace Forest

variable {f g : Forest} {kind : String} {span : Span} {compound : Bool} {parent : Option Nat}

@[simp]
theorem length_records (f : Forest) : f.records.length = f.size := by
  simp [records, size]

theorem getElem?_records (f : Forest) (i : Nat) :
    f.records[i]? = (f.get? i).map Entry.record := by
  simp [records, get?]

/-- A statement and its record stand at the same position. -/
theorem records_of_get? {i : Nat} {e : Entry} (he : f.get? i = some e) :
    f.records[i]? = some e.record := by
  rw [getElem?_records, he]
  rfl

theorem exists_of_records {i : Nat} {r : Record} (hr : f.records[i]? = some r) :
    ∃ e, f.get? i = some e ∧ e.record = r := by
  simpa [getElem?_records] using hr

theorem span?_eq (f : Forest) (i : Nat) : f.span? i = f.records[i]?.map Record.span := by
  rw [getElem?_records, span?, Option.map_map]
  rfl

@[simp]
theorem records_empty : empty.records = [] := rfl

/-- Lists of children are no part of the records. -/
theorem map_record_modify {h : Entry → Entry} (same : ∀ e, (h e).record = e.record)
    (es : Array Entry) (p : Nat) :
    (es.modify p h).toList.map Entry.record = es.toList.map Entry.record := by
  apply List.ext_getElem?
  intro i
  rw [List.getElem?_map, List.getElem?_map, Array.getElem?_toList, Array.getElem?_toList,
    Array.getElem?_modify]
  split
  · rw [Option.map_map]
    exact congrArg (Option.map · _) (funext same)
  · rfl

/-- A push puts one record behind the others. -/
@[simp]
theorem records_append :
    (f.append kind span compound parent).records =
      f.records ++ [⟨kind, span, compound, parent⟩] := by
  cases parent with
  | none => simp [append, records, Entry.record]
  | some p =>
    have same : ∀ e : Entry, Entry.record { e with children := e.children.push f.size } =
        e.record := fun _ => rfl
    simp only [append, records, map_record_modify same]
    simp [Entry.record]

/-- Only the list of children that the new statement belongs to gets longer. -/
theorem childrenOf_append (hp : ∀ p, parent = some p → p < f.size) (q : Option Nat) :
    (f.append kind span compound parent).childrenOf q =
      if q = parent then (f.childrenOf q).push f.size else f.childrenOf q := by
  have fresh (i : Nat) :
      ((f.entries.push ⟨kind, span, compound, parent, #[]⟩)[i]?.map Entry.children).getD #[] =
        f.childrenOf (some i) := by
    rw [childrenOf, get?, Array.getElem?_push]
    split
    · next hi =>
      subst hi
      rw [Array.getElem?_eq_none (Nat.le_refl _)]
      rfl
    · rfl
  cases parent with
  | none =>
    cases q with
    | none => rfl
    | some i => exact fresh i
  | some p =>
    cases q with
    | none => rfl
    | some i =>
      rw [append, childrenOf, get?, Array.getElem?_modify]
      by_cases hip : p = i
      · subst hip
        have hlt := hp p rfl
        have hne : p ≠ f.entries.size := Nat.ne_of_lt hlt
        rw [if_pos rfl, if_pos rfl, Array.getElem?_push, if_neg hne, childrenOf, get?,
          Array.getElem?_eq_getElem hlt]
        rfl
      · rw [if_neg hip, if_neg (by simpa using Ne.symm hip)]
        exact fresh i

/-! ## Sound forests -/

/-- The lists of children say the same as the parents, and each record fits those before it. -/
structure Sound (f : Forest) : Prop where
  linked : ∀ parent, (f.childrenOf parent).toList = childIds f.records parent
  fitted : Fitted f.records

theorem sound_empty : empty.Sound := by
  constructor
  · intro parent
    cases parent <;> rfl
  · exact fitted_nil

/-- The records of a sound forest tell all of it. -/
theorem Sound.eq_of_records (hf : f.Sound) (hg : g.Sound) (h : f.records = g.records) : f = g := by
  have lists : ∀ parent, f.childrenOf parent = g.childrenOf parent := by
    intro parent
    rw [← Array.toList_inj, hf.linked, hg.linked, h]
  have entries : f.entries = g.entries := by
    apply Array.ext_getElem?
    intro i
    have children := lists (some i)
    have record : (f.get? i).map Entry.record = (g.get? i).map Entry.record := by
      rw [← getElem?_records, ← getElem?_records, h]
    change f.get? i = g.get? i
    cases hi : f.get? i with
    | none =>
      rw [hi] at record
      exact (Option.map_eq_none_iff.1 record.symm).symm
    | some a =>
      rw [hi] at record
      obtain ⟨b, hb, hab⟩ := Option.map_eq_some_iff.1 record.symm
      simp only [childrenOf, hi, hb, Option.map_some, Option.getD_some] at children
      cases a
      cases b
      simp_all [Entry.record]
  have roots : f.roots = g.roots := lists none
  cases f
  cases g
  simp_all

theorem Sound.append (hf : f.Sound) (h : Fits f.records ⟨kind, span, compound, parent⟩) :
    (f.append kind span compound parent).Sound := by
  refine ⟨fun q => ?_, by simpa using fitted_append.2 ⟨hf.fitted, h⟩⟩
  have hp : ∀ p, parent = some p → p < f.size := fun p hp => by simpa using h.parent_lt hp
  rw [childrenOf_append hp, records_append, childIds_append, length_records, ← hf.linked q]
  by_cases hq : q = parent
  · simp [hq]
  · simp [hq, Ne.symm hq]

theorem misplaced?_eq_none_iff :
    f.misplaced? kind span parent = none ↔
      ∀ p, parent = some p → ∃ outer, f.records[p]? = some outer ∧
        span.StrictlyInside outer.span := by
  cases parent with
  | none => simp [misplaced?]
  | some p =>
    cases h : f.get? p with
    | none => simp [misplaced?, getElem?_records, h]
    | some outer => simp [misplaced?, getElem?_records, h, Entry.record]

/-- The last sibling ends behind all others, so it is enough to look at that one. -/
theorem Sound.overlap?_eq_none_iff (hf : f.Sound) :
    f.overlap? kind span parent = none ↔
      ∀ (i : Nat) x, f.records[i]? = some x → x.parent = parent → x.span.stop ≤ span.start := by
  have back : (f.childrenOf parent).back? = (childIds f.records parent).getLast? := by
    rw [← hf.linked parent, Array.getLast?_toList]
  unfold overlap?
  cases hl : (f.childrenOf parent).back? with
  | none =>
    have none_there : childIds f.records parent = [] := by
      rwa [back, List.getLast?_eq_none_iff] at hl
    simp only [Option.bind_eq_bind, Option.bind_none, true_iff]
    intro i x hx hp
    have := mem_childIds.2 ⟨x, hx, hp⟩
    simp [none_there] at this
  | some last =>
    rw [back] at hl
    obtain ⟨sibling, hs, hsp⟩ := mem_childIds.1 (List.mem_of_getLast? hl)
    obtain ⟨e, he, rfl⟩ := exists_of_records hs
    simp only [Option.bind_eq_bind, Option.bind_some, he, ite_eq_right_iff, reduceCtorEq, imp_false,
      Nat.not_lt]
    constructor
    · intro h i x hx hp
      have hle := le_of_getLast?_childIds hl (mem_childIds.2 ⟨x, hx, hp⟩)
      rcases Nat.lt_or_eq_of_le hle with hlt | rfl
      · have := hf.fitted.after hs hx hlt (hp.trans hsp.symm)
        have := hf.fitted.solid hs
        simp only [Entry.record] at *
        omega
      · rw [hs] at hx
        cases hx
        exact h
    · exact fun h => h last e.record hs hsp

/-- In a sound forest a statement breaks no rule exactly when its record fits. -/
theorem Sound.violation?_eq_none_iff (hf : f.Sound) :
    f.violation? kind span parent = none ↔ Fits f.records ⟨kind, span, compound, parent⟩ := by
  have empty_iff : emptySpan? kind span = none ↔ ¬ span.Empty := by simp [emptySpan?]
  simp only [violation?, Option.orElse_eq_orElse, Option.orElse_eq_or, Option.or_eq_none_iff,
    empty_iff, misplaced?_eq_none_iff, hf.overlap?_eq_none_iff]
  exact ⟨fun ⟨a, b, c⟩ => ⟨a, b, c⟩, fun ⟨a, b, c⟩ => ⟨a, b, c⟩⟩

/-- A push succeeds exactly when the record fits. -/
theorem Sound.push_eq_ok_iff_fits (hf : f.Sound) :
    f.push kind span compound parent = .ok g ↔
      Fits f.records ⟨kind, span, compound, parent⟩ ∧ g = f.append kind span compound parent := by
  rw [push_eq_ok_iff, hf.violation?_eq_none_iff]

theorem Sound.push (hf : f.Sound) (h : f.push kind span compound parent = .ok g) : g.Sound := by
  obtain ⟨hfit, rfl⟩ := hf.push_eq_ok_iff_fits.1 h
  exact hf.append hfit

theorem records_of_push (h : f.push kind span compound parent = .ok g) :
    g.records = f.records ++ [⟨kind, span, compound, parent⟩] := by
  rw [(push_eq_ok_iff.1 h).2, records_append]

/-- The new record stands at the end. -/
theorem getElem?_records_of_push (h : f.push kind span compound parent = .ok g) :
    g.records[f.size]? = some ⟨kind, span, compound, parent⟩ := by
  rw [records_of_push h, ← length_records, List.getElem?_concat_length]

end Forest

end StatementOutline
