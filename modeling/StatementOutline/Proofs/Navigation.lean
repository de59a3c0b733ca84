import StatementOutline.Proofs.Pointing

/-!
# Going through an outline

The statements inside a statement are read off the positions behind it, with no look at the lists of
children, and the statements around it are found by its parent. In a built outline all ways of going
through it agree.

* `Climbs`: the way up by the parent links;
* `Sound.reverse_ancestors_eq_filter`: the statements around a statement are told from spans alone;
* `Sound.exists_descendants_eq_range`: the statements inside a statement are the next positions;
* `Sound.flatMap_roots`: the statements at the top, each with those inside it, are all statements in
  order;
* `Outline.navigable_of_ofTree`: all of this for an outline that is built.
-/

namespace StatementOutline

namespace Forest

open Record

variable {f : Forest} {i j n : Nat} {e : Entry} {r x : Record}

/-! ## The way up -/

/-- The statements that are met on following the parent links to the top. -/
inductive Climbs (f : Forest) : Option Nat → List Nat → Prop
  | top : Climbs f none []
  | step {id : Nat} {e : Entry} {ids : List Nat} : f.get? id = some e → Climbs f e.parent ids →
      Climbs f (some id) (id :: ids)

/-- A statement is at the top, or the way up goes on from its parent. -/
theorem Sound.ancestors_cases (hf : f.Sound) (he : f.get? n = some e) :
    e.parent = none ∧ f.ancestors n = [] ∨
      ∃ p outer, e.parent = some p ∧ p < n ∧ f.get? p = some outer ∧
        f.ancestors n = p :: f.ancestors p := by
  rw [ancestors, he, Option.bind_some]
  cases hp : e.parent with
  | none => exact .inl ⟨rfl, rfl⟩
  | some p =>
    obtain ⟨hlt, r, hr, -⟩ := hf.fitted.inside (records_of_get? he) hp
    obtain ⟨outer, hout, -⟩ := exists_of_records hr
    exact .inr ⟨p, outer, rfl, hlt, hout, if_pos hlt⟩

/-- Parents have smaller positions, so the way up comes to an end at the top. -/
theorem Sound.climbs (hf : f.Sound) (he : f.get? n = some e) :
    f.Climbs e.parent (f.ancestors n) := by
  induction n using Nat.strongRecOn generalizing e with
  | ind n ih =>
    rcases hf.ancestors_cases he with ⟨top, around⟩ | ⟨p, outer, hp, hlt, hout, around⟩
    · rw [top, around]
      exact .top
    · rw [hp, around]
      exact .step hout (ih p hlt hout)

/-- Each statement on the way up lies strictly around those before it. -/
theorem Sound.pairwise_strictlyInside (hf : f.Sound) (he : f.get? n = some e) :
    (n :: f.ancestors n).Pairwise fun i j =>
      ∃ a b, f.get? i = some a ∧ f.get? j = some b ∧ a.span.StrictlyInside b.span := by
  induction n using Nat.strongRecOn generalizing e with
  | ind n ih =>
    have hr := records_of_get? he
    obtain ⟨hn, -⟩ := List.getElem?_eq_some_iff.1 hr
    have around : ∀ j ∈ f.ancestors n,
        ∃ a b, f.get? n = some a ∧ f.get? j = some b ∧ a.span.StrictlyInside b.span := by
      intro j hj
      have hjn := hf.mem_ancestors_iff.1 hj
      obtain ⟨b, hb, -⟩ := exists_of_records
        (List.getElem?_eq_getElem (Nat.lt_trans (hjn.lt hf.fitted) hn))
      exact ⟨e, b, he, hb, hjn.strictlyInside hf.fitted (records_of_get? hb) hr⟩
    apply List.Pairwise.cons around
    rcases hf.ancestors_cases he with ⟨-, none_around⟩ | ⟨p, outer, -, hlt, hout, next⟩
    · rw [none_around]
      exact .nil
    · rw [next]
      exact ih p hlt hout

/-- The statements around a statement are those with a span strictly around its own. -/
theorem Sound.reverse_ancestors_eq_filter (hf : f.Sound) (he : f.get? n = some e) :
    (f.ancestors n).reverse = (List.range f.size).filter fun j =>
      (f.span? j).any fun s => decide (e.span.StrictlyInside s) := by
  have hr := records_of_get? he
  have sorted : (f.ancestors n).reverse.Pairwise (· < ·) :=
    List.pairwise_reverse.2 (List.pairwise_cons.1 (hf.pairwise_ancestors n)).2
  apply sorted.eq_of_mem_iff (List.pairwise_lt_range.filter _)
  intro j
  rw [List.mem_reverse, hf.mem_ancestors_iff, List.mem_filter, List.mem_range]
  constructor
  · intro h
    obtain ⟨hn, -⟩ := List.getElem?_eq_some_iff.1 hr
    have hj := Nat.lt_trans (h.lt hf.fitted) hn
    have hx := List.getElem?_eq_getElem hj
    rw [length_records] at hj
    exact ⟨hj, (any_span?_iff hx).2 (h.strictlyInside hf.fitted hx hr)⟩
  · rintro ⟨hj, around⟩
    rw [← length_records] at hj
    have hx := List.getElem?_eq_getElem hj
    exact (strictlyInside_iff_under hf.fitted hx hr).1 ((any_span?_iff hx).1 around)

theorem Sound.depth_eq_countP (hf : f.Sound) (he : f.get? n = some e) :
    f.depth n = (List.range f.size).countP fun j =>
      (f.span? j).any fun s => decide (e.span.StrictlyInside s) := by
  rw [depth, ← List.length_reverse, hf.reverse_ancestors_eq_filter he, List.countP_eq_length_filter]

/-! ## The way through -/

/-- The statements inside a statement are those that have it around them. -/
theorem Sound.mem_descendants_iff_mem_ancestors (hf : f.Sound) (ho : Preordered f.records)
    (hn : n < f.size) : j ∈ f.descendants n ↔ n ∈ f.ancestors j := by
  have he : f.get? n = some f.entries[n] := Array.getElem?_eq_getElem hn
  rw [hf.mem_descendants_iff ho he, hf.mem_ancestors_iff]

/-- The statements inside a statement are those behind it up to some position. -/
theorem exists_descendants_eq_range (f : Forest) (hn : n < f.size) :
    ∃ count, n + 1 + count ≤ f.size ∧ f.descendants n = List.range' (n + 1) count := by
  have he : f.get? n = some f.entries[n] := Array.getElem?_eq_getElem hn
  have front : f.descendants n <+: List.range' (n + 1) (f.size - (n + 1)) := by
    rw [descendants, he]
    exact List.takeWhile_prefix _
  have short := front.length_le
  rw [List.length_range'] at short
  refine ⟨(f.descendants n).length, by omega, ?_⟩
  have taken := List.prefix_iff_eq_take.1 front
  rwa [List.take_range'_of_length_ge short] at taken

/-- Nothing at the top lies below a record, so what lies below it comes before the next one. -/
theorem lt_of_parent_eq_none (hrs : Fitted f.records) (ho : Preordered f.records) (hij : i < j)
    (hr : f.records[j]? = some r) (hp : r.parent = none) (hn : n = i ∨ Under f.records i n) :
    n < j := by
  have top : ¬ Under f.records i j := by
    intro h
    obtain ⟨p, hparent, -⟩ := (under_iff hr).1 h
    rw [hp] at hparent
    cases hparent
  by_contra hle
  rcases hn with rfl | h
  · exact hle hij
  · by_cases heq : n = j
    · exact top (heq ▸ h)
    · exact top (h.of_between hrs ho hij (by omega))

/-- The statements at the top, each followed by those inside it, are all statements in order. -/
theorem Sound.flatMap_roots (hf : f.Sound) (ho : Preordered f.records) :
    f.roots.toList.flatMap (fun n => n :: f.descendants n) = List.range f.size := by
  have mem_roots : ∀ n, n ∈ f.roots.toList ↔ ∃ r, f.records[n]? = some r ∧ r.parent = none := by
    intro n
    rw [show f.roots = f.childrenOf none from rfl, hf.linked none, mem_childIds]
  have known : ∀ n ∈ f.roots.toList, n < f.size := by
    intro n hn
    obtain ⟨r, hr, -⟩ := (mem_roots n).1 hn
    rw [← length_records]
    exact (List.getElem?_eq_some_iff.1 hr).1
  have below : ∀ n ∈ f.roots.toList, ∀ j, j ∈ n :: f.descendants n ↔
      j = n ∨ Under f.records n j := by
    intro n hn j
    rw [List.mem_cons, hf.mem_descendants_iff_mem_ancestors ho (known n hn),
      hf.mem_ancestors_iff]
  have sorted : (f.roots.toList.flatMap fun n => n :: f.descendants n).Pairwise (· < ·) := by
    apply List.pairwise_flatMap.2
    constructor
    · intro n hn
      obtain ⟨count, -, heq⟩ := f.exists_descendants_eq_range (known n hn)
      rw [heq, ← List.range'_succ]
      exact List.pairwise_lt_range'
    · have roots := pairwise_childIds f.records none
      rw [← hf.linked none] at roots
      refine roots.imp_of_mem fun {i j} hi hj hij a ha b hb => ?_
      obtain ⟨r, hr, hp⟩ := (mem_roots j).1 hj
      have hlt := lt_of_parent_eq_none hf.fitted ho hij hr hp ((below i hi a).1 ha)
      rcases (below j hj b).1 hb with rfl | hb
      · exact hlt
      · exact Nat.lt_trans hlt (hb.lt hf.fitted)
  apply sorted.eq_of_mem_iff List.pairwise_lt_range
  intro j
  rw [List.mem_flatMap, List.mem_range]
  constructor
  · rintro ⟨n, hn, hj⟩
    rcases (below n hn j).1 hj with rfl | hj
    · exact known _ hn
    · obtain ⟨r, hr⟩ := hj.exists_record
      rw [← length_records]
      exact (List.getElem?_eq_some_iff.1 hr).1
  · intro hj
    rw [← length_records] at hj
    obtain ⟨n, r, hr, hp, hc⟩ := exists_root hf.fitted (List.getElem?_eq_getElem hj)
    have hn := (mem_roots n).2 ⟨r, hr, hp⟩
    exact ⟨n, hn, (below n hn j).2 (hc.imp_left Eq.symm)⟩

/-- All ways of going through a forest agree with the parent links. -/
structure Navigable (f : Forest) : Prop where
  /-- The parent links lead to the top by way of the statements around a statement. -/
  climbs : ∀ n e, f.get? n = some e → f.Climbs e.parent (f.ancestors n)
  decreasing : ∀ n, (n :: f.ancestors n).Pairwise fun i j => j < i
  growing : ∀ n e, f.get? n = some e → (n :: f.ancestors n).Pairwise fun i j =>
    ∃ a b, f.get? i = some a ∧ f.get? j = some b ∧ a.span.StrictlyInside b.span
  /-- A statement is as deep as there are spans strictly around its own. -/
  depth_eq : ∀ n e, f.get? n = some e → f.depth n = (List.range f.size).countP fun j =>
    (f.span? j).any fun s => decide (e.span.StrictlyInside s)
  mem_descendants : ∀ n < f.size, ∀ j, j ∈ f.descendants n ↔ n ∈ f.ancestors j
  /-- The statements inside a statement come right behind it, in order and without a gap. -/
  descendants_eq : ∀ n < f.size, ∃ count, n + 1 + count ≤ f.size ∧
    f.descendants n = List.range' (n + 1) count
  mem_children : ∀ n e, f.get? n = some e → ∀ j,
    j ∈ e.children.toList ↔ ∃ x, f.get? j = some x ∧ x.parent = some n
  /-- Children are listed once each, in the order of their positions and of the source. -/
  children_increasing : ∀ n e, f.get? n = some e → e.children.toList.Pairwise (· < ·)
  children_after : ∀ n e, f.get? n = some e → e.children.toList.Pairwise fun i j =>
    ∃ a b, f.get? i = some a ∧ f.get? j = some b ∧ a.span.stop ≤ b.span.start
  mem_roots : ∀ j, j ∈ f.roots.toList ↔ ∃ x, f.get? j = some x ∧ x.parent = none
  flatMap_roots : f.roots.toList.flatMap (fun n => n :: f.descendants n) = List.range f.size

theorem childrenOf_eq (he : f.get? n = some e) : f.childrenOf (some n) = e.children := by
  simp [childrenOf, he]

/-- What is listed under a parent, or at the top, are the statements that name it. -/
theorem Sound.mem_childrenOf_iff (hf : f.Sound) (parent : Option Nat) :
    j ∈ (f.childrenOf parent).toList ↔ ∃ x, f.get? j = some x ∧ x.parent = parent := by
  rw [hf.linked parent, mem_childIds, getElem?_records]
  constructor
  · rintro ⟨r, hr, hp⟩
    obtain ⟨x, hx, rfl⟩ := Option.map_eq_some_iff.1 hr
    exact ⟨x, hx, hp⟩
  · rintro ⟨x, hx, hp⟩
    exact ⟨x.record, by rw [hx, Option.map_some], hp⟩

theorem Sound.navigable (hf : f.Sound) (ho : Preordered f.records) : f.Navigable := by
  have laminar := hf.laminar
  constructor
  · intro n e he
    exact hf.climbs he
  · exact hf.pairwise_ancestors
  · intro n e he
    exact hf.pairwise_strictlyInside he
  · intro n e he
    exact hf.depth_eq_countP he
  · intro n hn j
    exact hf.mem_descendants_iff_mem_ancestors ho hn
  · intro n hn
    exact f.exists_descendants_eq_range hn
  · intro n e he j
    rw [← childrenOf_eq he]
    exact hf.mem_childrenOf_iff (some n)
  · intro n e he
    rw [← childrenOf_eq he]
    exact laminar.increasing (some n)
  · intro n e he
    rw [← childrenOf_eq he]
    exact laminar.after (some n)
  · intro j
    exact hf.mem_childrenOf_iff none
  · exact hf.flatMap_roots ho

end Forest

namespace Outline

variable {language : Language} {source : String} {query : Span} {settings : Settings} {root : Node}
  {o : Outline}

/-- Whatever the source and the query, all ways through an outline that is built agree. -/
theorem navigable_of_ofTree (ho : ofTree language source query settings root = .ok o) :
    o.forest.Navigable := by
  obtain ⟨-, -, hf⟩ := built_of_ofTree ho
  exact (Forest.sound_of_ofSketch hf).navigable (Forest.preordered_of_ofSketch hf)

/-- One statement at the top is followed by another one that has a statement inside it. -/
theorem navigable_accents : ofTree .c accents (wholeQuery accents .utf16)
      ⟨.utf16, .intersecting, 100⟩ accentsRoot = .ok accentsOutline ∧
    accentsOutline.forest.Navigable :=
  ⟨ofTree_accents, navigable_of_ofTree ofTree_accents⟩

end Outline

end StatementOutline
