import StatementOutline.Proofs.Navigation
import StatementOutline.Proofs.Origins
import StatementOutline.Proofs.Rejection

/-!
# Planting somewhere else

What a sketch adds to a forest depends on the span around it alone, and on that only as far as
something nested in the sketch has the same span. The records that are added are the same wherever
they are put, but for the positions by which they go.

* `Record.relocated`: a record put behind others;
* `Scope.addedAll`: the records that sketches add, in positions of their own;
* `records_of_plantAll`: planting adds these records and no others;
* `PutUnder.inside_eq`, `Planted.exists_inside`: they are found again inside the statement under
  which they have been put;
* `exists_ofSketch_of_occurs`, `exists_ofSketch_of_body`: what can be planted by itself.
-/

namespace StatementOutline

namespace Record

variable {r : Record} {base n : Nat} {parent : Option Nat}

/-! ## Positions -/

/-- A record of some that are put behind `base` others, those at the top under `parent`. -/
def relocated (base : Nat) (parent : Option Nat) (r : Record) : Record :=
  { r with parent := match r.parent with
    | none => parent
    | some p => some (base + p) }

/-- The record by the positions from `base` on. Where its parent comes before, it is at the top. -/
def countedFrom (base : Nat) (r : Record) : Record :=
  { r with parent := r.parent.bind fun p => if base ≤ p then some (p - base) else none }

theorem relocated_zero (r : Record) : r.relocated 0 none = r := by
  obtain ⟨kind, span, compound, own⟩ := r
  cases own with
  | none => rfl
  | some p => simp [relocated]

theorem relocated_below (r : Record) (base : Nat) (parent : Option Nat) :
    (r.relocated 1 (some 0)).relocated base parent = r.relocated (base + 1) (some base) := by
  unfold relocated
  cases r.parent <;> simp [Nat.add_assoc]

theorem relocated_behind (r : Record) (n base : Nat) (parent : Option Nat) :
    (r.relocated n none).relocated base parent = r.relocated (base + n) parent := by
  unfold relocated
  cases r.parent <;> simp [Nat.add_assoc]

theorem countedFrom_relocated (h : ∀ p, parent = some p → p < base) (r : Record) :
    (r.relocated base parent).countedFrom base = r := by
  obtain ⟨kind, span, compound, own⟩ := r
  cases own with
  | none =>
    cases parent with
    | none => rfl
    | some p => simp [relocated, countedFrom, Nat.not_le.2 (h p rfl)]
  | some p => simp [relocated, countedFrom]

end Record

open Record

namespace Sketch

variable {ks ls : List Sketch} {k l : Sketch} {outer o : Option Span} {x : Record}

theorem Occurs.mono (h : Occurs ks o l) (hks : ∀ k ∈ ks, k ∈ ls) : Occurs ls o l := by
  induction h with
  | top hk => exact .top (hks _ hk)
  | nested _ hl ih => exact .nested ih hl

theorem Occurs.ne_nil (h : Occurs ks o l) : ks ≠ [] := by
  induction h with
  | top hk => exact List.ne_nil_of_mem hk
  | nested _ _ ih => exact ih

/-- What occurs among the sketches of a body occurs where the body does. -/
theorem Occurs.within (h : Occurs ks o l) (hks : ∀ k ∈ ks, Occurs ls outer k) :
    Occurs ls (o.or outer) l := by
  induction h with
  | top hk => exact hks _ hk
  | @nested o k l _ hl ih =>
    have below := Occurs.nested ih hl
    cases k <;> exact below

/-- What occurs among one sketch is that sketch or occurs in its body. -/
theorem Occurs.cases_singleton (h : Occurs [k] o l) :
    l = k ∧ o = none ∨ ∃ o', Occurs k.body o' l ∧ o = o'.or (k.around none) := by
  induction h with
  | top hk => exact .inl ⟨List.mem_singleton.1 hk, rfl⟩
  | @nested o m l _ hl ih =>
    rcases ih with ⟨rfl, rfl⟩ | ⟨o', hm, rfl⟩
    · exact .inr ⟨none, .top hl, rfl⟩
    · refine .inr ⟨_, .nested hm hl, ?_⟩
      cases m <;> rfl

/-- What occurs among sketches in a row lies inside the row. -/
theorem Occurs.inside {lo hi : Nat} (h : Occurs ks o l) (hrow : Row lo hi (ks.map span))
    (hks : ∀ k ∈ ks, k.WellPlaced) : lo ≤ l.span.start ∧ l.span.stop ≤ hi := by
  induction h with
  | top hk =>
    obtain ⟨hlo, -, hhi⟩ := hrow.of_mem (List.mem_map_of_mem hk)
    exact ⟨hlo, hhi⟩
  | nested hk hl ih =>
    obtain ⟨-, a, b⟩ := (hk.wellPlaced hks).of_mem_body hl
    exact ⟨Nat.le_trans ih.1 a, Nat.le_trans b ih.2⟩

theorem Yields.mono (h : Yields ks x) (hks : ∀ k ∈ ks, k ∈ ls) : Yields ls x := by
  obtain ⟨o, l, hl, hs⟩ := h
  exact ⟨o, l, hl.mono hks, hs⟩

/-- What the body of a sketch yields the sketch yields. -/
theorem Yields.of_body (h : Yields k.body x) : Yields [k] x := by
  obtain ⟨o, l, hl, hs⟩ := h
  exact ⟨_, l, hl.within fun m hm => .nested (.top (List.mem_singleton_self k)) hm, hs⟩

end Sketch

/-! ## What is added -/

mutual
/-- The records that a sketch adds in a scope under a statement with the span `outer`, or at the top.
They go by positions among themselves. -/
def Scope.added (s : Scope) (outer : Option Span) : Sketch → List Record
  | .simple kind span =>
    if s.Admits span false ∧ outer ≠ some span then [⟨kind, span, false, none⟩] else []
  | .fragment span =>
    if s.Admits span false ∧ outer ≠ some span then [⟨Forest.errorKind, span, false, none⟩] else []
  | .attachments run =>
    if s.Admits run.span false then [⟨run.kind, run.span, false, none⟩] else []
  | .group span body => if s.query.Meets span then s.addedAll outer body else []
  | .compound kind span body =>
    if s.Admits span true then
      if outer = some span then s.addedAll outer body
      else ⟨kind, span, true, none⟩ :: (s.addedAll (some span) body).map (relocated 1 (some 0))
    else []

/-- The records that several sketches add, one after the other. -/
def Scope.addedAll (s : Scope) (outer : Option Span) : List Sketch → List Record
  | [] => []
  | k :: ks =>
    let first := s.added outer k
    first ++ (s.addedAll outer ks).map (relocated first.length none)
end

namespace Forest

variable {s : Scope} {parent : Option Nat} {outer outer' : Option Span} {f g : Forest}
  {kind : String} {span : Span} {compound : Bool} {ks : List Sketch} {x : Record}

theorem Place.merges_eq (h : f.Place parent outer) (span : Span) :
    f.merges span parent = decide (outer = some span) := by
  rw [Bool.eq_iff_iff, h.merges_iff, decide_eq_true_iff]

mutual
/-- Planting a sketch adds its records, wherever it is planted. -/
theorem records_of_plant : ∀ (k : Sketch) {parent : Option Nat} {outer : Option Span} {f g : Forest},
    f.Sound → f.Place parent outer → plant s parent k f = .ok g →
    g.records = f.records ++ (s.added outer k).map (relocated f.size parent)
  | .simple kind span, parent, outer, f, g, _, hplace, hg => by
    rw [plant] at hg
    rw [Scope.added]
    obtain ⟨hno, rfl⟩ | ⟨ha, hm, hp⟩ := plantSimple_cases hg
    · rw [if_neg, List.map_nil, List.append_nil]
      simpa [hplace.merges_eq] using hno
    · rw [if_pos ⟨ha, by simpa [hplace.merges_eq] using hm⟩]
      exact records_of_push hp
  | .fragment span, parent, outer, f, g, _, hplace, hg => by
    rw [plant] at hg
    rw [Scope.added]
    obtain ⟨hno, rfl⟩ | ⟨ha, hm, hp⟩ := plantSimple_cases hg
    · rw [if_neg, List.map_nil, List.append_nil]
      simpa [hplace.merges_eq] using hno
    · rw [if_pos ⟨ha, by simpa [hplace.merges_eq] using hm⟩]
      exact records_of_push hp
  | .attachments run, parent, outer, f, g, _, _, hg => by
    rw [plant] at hg
    rw [Scope.added]
    obtain ⟨hno, rfl⟩ | ⟨ha, hp⟩ := plantRun_cases hg
    · rw [if_neg hno, List.map_nil, List.append_nil]
    · rw [if_pos ha]
      exact records_of_push hp
  | .group span body, parent, outer, f, g, hf, hplace, hg => by
    rw [Scope.added]
    obtain ⟨hno, rfl⟩ | ⟨hm, hb⟩ := plant_group_cases hg
    · rw [if_neg hno, List.map_nil, List.append_nil]
    · rw [if_pos hm]
      exact records_of_plantAll body hf hplace hb
  | .compound kind span body, parent, outer, f, g, hf, hplace, hg => by
    rw [Scope.added]
    obtain ⟨hno, rfl⟩ | ⟨ha, hm, hb⟩ | ⟨ha, hm, h, hp, hb⟩ := plant_compound_cases hg
    · rw [if_neg hno, List.map_nil, List.append_nil]
    · rw [if_pos ha, if_pos (hplace.merges_iff.1 hm)]
      exact records_of_plantAll body hf hplace hb
    · have below := records_of_plantAll body (hf.push hp) (place_of_push hp) hb
      have hsize : h.size = f.size + 1 := by
        rw [← length_records, records_of_push hp, List.length_append, length_records]
        rfl
      rw [if_pos ha, if_neg (by simpa [hplace.merges_eq] using hm), List.map_cons, List.map_map,
        below, records_of_push hp, hsize, List.append_assoc, List.singleton_append]
      simp only [Function.comp_def, relocated_below]
      rfl

theorem records_of_plantAll : ∀ (ks : List Sketch) {parent : Option Nat} {outer : Option Span}
    {f g : Forest}, f.Sound → f.Place parent outer → plantAll s parent ks f = .ok g →
    g.records = f.records ++ (s.addedAll outer ks).map (relocated f.size parent)
  | [], parent, outer, f, g, _, _, hg => by
    obtain rfl : f = g := by simpa using hg
    rw [Scope.addedAll, List.map_nil, List.append_nil]
  | k :: ks, parent, outer, f, g, hf, hplace, hg => by
    obtain ⟨h, hk, hks⟩ := plantAll_cons_ok.1 hg
    have grown := plant_grown k hk
    have first := records_of_plant k hf hplace hk
    have rest := records_of_plantAll ks (grown.sound hf) (hplace.grown grown) hks
    have hsize : h.size = f.size + (s.added outer k).length := by
      rw [← length_records, first, List.length_append, List.length_map, length_records]
    rw [Scope.addedAll, rest, first, hsize, List.map_append, List.map_map, List.append_assoc]
    simp only [Function.comp_def, relocated_behind]
end

/-- A forest is made of the records that its sketches add. -/
theorem records_of_ofSketch (hg : ofSketch s ks = .ok g) : g.records = s.addedAll none ks := by
  have all := records_of_plantAll ks sound_empty .top hg
  rw [all, records_empty, List.nil_append]
  have same : relocated empty.size none = id := funext relocated_zero
  rw [same, List.map_id]

/-! ## What records come from -/

mutual
/-- A record that a sketch adds is that of the sketch or of one inside it. -/
theorem exists_occurs_of_mem_added : ∀ (k : Sketch) {outer : Option Span} {x : Record},
    x ∈ s.added outer k → ∃ o l parent, Sketch.Occurs [k] o l ∧ l.Stores { x with parent := parent }
  | .simple kind span, outer, x, hx => by
    rw [Scope.added] at hx
    split at hx
    · obtain rfl := List.mem_singleton.1 hx
      exact ⟨none, _, none, .top (List.mem_singleton_self _), .simple⟩
    · simp at hx
  | .fragment span, outer, x, hx => by
    rw [Scope.added] at hx
    split at hx
    · obtain rfl := List.mem_singleton.1 hx
      exact ⟨none, _, none, .top (List.mem_singleton_self _), .fragment⟩
    · simp at hx
  | .attachments run, outer, x, hx => by
    rw [Scope.added] at hx
    split at hx
    · obtain rfl := List.mem_singleton.1 hx
      exact ⟨none, _, none, .top (List.mem_singleton_self _), .attachments⟩
    · simp at hx
  | .group span body, outer, x, hx => by
    rw [Scope.added] at hx
    split at hx
    · obtain ⟨o, l, parent, hl, hs⟩ := exists_occurs_of_mem_addedAll body hx
      exact ⟨_, l, parent, hl.within fun k hk => .nested (.top (List.mem_singleton_self _)) hk, hs⟩
    · simp at hx
  | .compound kind span body, outer, x, hx => by
    have nested : ∀ {x : Record} {outer}, x ∈ s.addedAll outer body →
        ∃ o l parent, Sketch.Occurs [.compound kind span body] o l ∧
          l.Stores { x with parent := parent } := by
      intro x outer hx
      obtain ⟨o, l, parent, hl, hs⟩ := exists_occurs_of_mem_addedAll body hx
      exact ⟨_, l, parent, hl.within fun k hk => .nested (.top (List.mem_singleton_self _)) hk, hs⟩
    rw [Scope.added] at hx
    split at hx
    · split at hx
      · exact nested hx
      · rcases List.mem_cons.1 hx with rfl | hx
        · exact ⟨none, _, none, .top (List.mem_singleton_self _), .compound⟩
        · obtain ⟨y, hy, rfl⟩ := List.mem_map.1 hx
          have below := nested hy
          exact below
    · simp at hx

theorem exists_occurs_of_mem_addedAll : ∀ (ks : List Sketch) {outer : Option Span} {x : Record},
    x ∈ s.addedAll outer ks → ∃ o l parent, Sketch.Occurs ks o l ∧ l.Stores { x with parent := parent }
  | [], outer, x, hx => by simp [Scope.addedAll] at hx
  | k :: ks, outer, x, hx => by
    rw [Scope.addedAll] at hx
    rcases List.mem_append.1 hx with hx | hx
    · obtain ⟨o, l, parent, hl, hs⟩ := exists_occurs_of_mem_added k hx
      exact ⟨o, l, parent, hl.mono (by simp), hs⟩
    · obtain ⟨y, hy, rfl⟩ := List.mem_map.1 hx
      obtain ⟨o, l, parent, hl, hs⟩ := exists_occurs_of_mem_addedAll ks hy
      exact ⟨o, l, parent, hl.mono fun k hk => List.mem_cons_of_mem _ hk, hs⟩
end

mutual
/-- The span around a sketch matters only to what has that span. -/
theorem added_congr : ∀ (k : Sketch) {outer outer' : Option Span},
    (∀ x, Sketch.Yields [k] x → outer ≠ some x.span ∧ outer' ≠ some x.span) →
    s.added outer k = s.added outer' k
  | .simple kind span, outer, outer', h => by
    obtain ⟨hne, hne'⟩ := h ⟨kind, span, false, none⟩ ⟨none, _, .top (List.mem_singleton_self _), .simple⟩
    simp only [Scope.added, hne, hne', ne_eq, not_false_eq_true, and_true]
  | .fragment span, outer, outer', h => by
    obtain ⟨hne, hne'⟩ := h ⟨errorKind, span, false, none⟩
      ⟨none, _, .top (List.mem_singleton_self _), .fragment⟩
    simp only [Scope.added, hne, hne', ne_eq, not_false_eq_true, and_true]
  | .attachments run, outer, outer', _ => by simp only [Scope.added]
  | .group span body, outer, outer', h => by
    have same : s.addedAll outer body = s.addedAll outer' body :=
      addedAll_congr body fun x hx => h x (Sketch.Yields.of_body (k := .group span body) hx)
    simp only [Scope.added, same]
  | .compound kind span body, outer, outer', h => by
    obtain ⟨hne, hne'⟩ := h ⟨kind, span, true, none⟩ ⟨none, _, .top (List.mem_singleton_self _), .compound⟩
    simp only [Scope.added, if_neg hne, if_neg hne']

theorem addedAll_congr : ∀ (ks : List Sketch) {outer outer' : Option Span},
    (∀ x, Sketch.Yields ks x → outer ≠ some x.span ∧ outer' ≠ some x.span) →
    s.addedAll outer ks = s.addedAll outer' ks
  | [], outer, outer', _ => by simp only [Scope.addedAll]
  | k :: ks, outer, outer', h => by
    have first : s.added outer k = s.added outer' k :=
      added_congr k fun x hx => h x (hx.mono (by simp))
    have rest : s.addedAll outer ks = s.addedAll outer' ks :=
      addedAll_congr ks fun x hx => h x (hx.mono fun k hk => List.mem_cons_of_mem _ hk)
    simp only [Scope.addedAll, first, rest]
end

/-! ## Inside a statement -/

/-- The records of the statements inside a statement, by positions from the first of them on. -/
def inside (f : Forest) (i : Nat) : List Record :=
  ((f.descendants i).filterMap (f.records[·]?)).map (countedFrom (i + 1))

/-- The records inside a statement have the spans of the records below that statement. -/
theorem Sound.exists_mem_inside_iff (hf : f.Sound) (ho : Preordered f.records) {i : Nat} {e : Entry}
    (he : f.get? i = some e) : (∃ x ∈ f.inside i, x.span = span) ↔
      ∃ j y, f.records[j]? = some y ∧ Under f.records i j ∧ y.span = span := by
  have hi : i < f.size := (Array.getElem?_eq_some_iff.1 he).1
  have below : ∀ j, j ∈ f.descendants i ↔ Under f.records i j := by
    intro j
    rw [hf.mem_descendants_iff_mem_ancestors ho hi, hf.mem_ancestors_iff]
  constructor
  · rintro ⟨x, hx, rfl⟩
    obtain ⟨y, hy, rfl⟩ := List.mem_map.1 hx
    obtain ⟨j, hj, hrec⟩ := List.mem_filterMap.1 hy
    exact ⟨j, y, hrec, (below j).1 hj, rfl⟩
  · rintro ⟨j, y, hy, hj, rfl⟩
    exact ⟨_, List.mem_map_of_mem (List.mem_filterMap.2 ⟨j, (below j).2 hj, hy⟩), rfl⟩

/-- Behind the records `front` a statement has been put, right behind it others have been put under
it, and what comes later has not been put there. -/
structure PutUnder (f : Forest) (front : List Record) (x : Record) (new back : List Record) :
    Prop where
  records_eq : f.records =
    front ++ x :: (new.map (relocated (front.length + 1) (some front.length)) ++ back)
  clear : ∀ r ∈ back, ∀ p, r.parent = some p →
    p < front.length ∨ front.length + 1 + new.length ≤ p

section
variable {front new back : List Record} {r : Record} {i j k p : Nat}

theorem PutUnder.size_eq (h : f.PutUnder front x new back) :
    f.size = front.length + 1 + new.length + back.length := by
  rw [← length_records, h.records_eq]
  simp
  omega

theorem PutUnder.drop_eq (h : f.PutUnder front x new back) :
    f.records.drop (front.length + 1) =
      new.map (relocated (front.length + 1) (some front.length)) ++ back := by
  rw [h.records_eq, ← List.singleton_append, ← List.append_assoc, List.drop_left' (by simp)]

theorem PutUnder.getElem?_new (h : f.PutUnder front x new back) (hk : k < new.length) :
    f.records[front.length + 1 + k]? =
      some (new[k].relocated (front.length + 1) (some front.length)) := by
  rw [← List.getElem?_drop, h.drop_eq, List.getElem?_append_left (by simpa using hk),
    List.getElem?_map, List.getElem?_eq_getElem hk, Option.map_some]

/-- All that has been put under the statement is below it: parents come first. -/
theorem PutUnder.under (h : f.PutUnder front x new back) (hf : f.Sound) (hk : k < new.length) :
    Under f.records front.length (front.length + 1 + k) := by
  induction k using Nat.strongRecOn with
  | ind k ih =>
    have hr := h.getElem?_new hk
    cases hp : new[k].parent with
    | none => exact .child hr (by simp [relocated, hp])
    | some p =>
      have hparent : (new[k].relocated (front.length + 1) (some front.length)).parent =
          some (front.length + 1 + p) := by simp [relocated, hp]
      have hlt := hf.fitted.parent_lt hr hparent
      exact .deeper (ih p (by omega) (by omega)) hr hparent

/-- Nothing else is below it. -/
theorem PutUnder.lt_of_under (h : f.PutUnder front x new back) (hf : f.Sound)
    (hj : Under f.records front.length j) : j < front.length + 1 + new.length := by
  have early : ∀ {j p : Nat} {r : Record}, f.records[j]? = some r → r.parent = some p →
      front.length ≤ p → p < front.length + 1 + new.length →
      j < front.length + 1 + new.length := by
    intro j p r hr hp hlo hhi
    by_contra hle
    have hj : j = front.length + 1 + (j - (front.length + 1)) := by omega
    rw [hj, ← List.getElem?_drop, h.drop_eq,
      List.getElem?_append_right (by rw [List.length_map]; omega)] at hr
    have apart := h.clear r (List.mem_of_getElem? hr) p hp
    omega
  induction hj with
  | child hr hp => exact early hr hp (Nat.le_refl _) (by omega)
  | deeper hk hr hp ih => exact early hr hp (Nat.le_of_lt (hk.lt hf.fitted)) ih

theorem PutUnder.descendants_eq (h : f.PutUnder front x new back) (hf : f.Sound)
    (ho : Preordered f.records) :
    f.descendants front.length = List.range' (front.length + 1) new.length := by
  have hsize := h.size_eq
  have hi : front.length < f.size := by omega
  obtain ⟨count, hcount, heq⟩ := f.exists_descendants_eq_range hi
  have mem : ∀ j, j ∈ List.range' (front.length + 1) count ↔ Under f.records front.length j := by
    intro j
    rw [← heq, hf.mem_descendants_iff_mem_ancestors ho hi, hf.mem_ancestors_iff]
  rw [heq]
  rcases Nat.lt_trichotomy count new.length with hlt | rfl | hgt
  · have := List.mem_range'_1.1 ((mem _).2 (h.under hf hlt))
    omega
  · rfl
  · have := h.lt_of_under hf ((mem (front.length + 1 + new.length)).1
      (List.mem_range'_1.2 (by omega)))
    omega

/-- What has been put under a statement stands inside it. -/
theorem PutUnder.inside_eq (h : f.PutUnder front x new back) (hf : f.Sound)
    (ho : Preordered f.records) : f.inside front.length = new := by
  have first : ∀ p, some front.length = some p → p < front.length + 1 := by
    rintro p ⟨⟩
    exact Nat.lt_succ_self _
  rw [inside, h.descendants_eq hf ho, filterMap_range', h.drop_eq, List.take_left' (by simp),
    List.map_map]
  calc new.map (countedFrom (front.length + 1) ∘ relocated (front.length + 1) (some front.length))
      = new.map id := List.map_congr_left fun r _ => countedFrom_relocated first r
    _ = new := List.map_id new

end

theorem Place.extends {P : Record → Prop} (h : f.Place parent outer) (hg : Extends P f g) :
    g.Place parent outer := by
  cases h with
  | top => exact .top
  | under hr => exact .under (hg.getElem? hr)

theorem Place.bind_span? (h : f.Place parent outer) : parent.bind f.span? = outer := by
  cases h with
  | top => rfl
  | under hr => simp [span?_eq, hr]

/-- A statement that has been planted stands under the statement with the span, and inside it stands
what its sketch adds there. -/
theorem Planted.exists_inside {new : List Record} (h : Planted s g outer ks) (hg : g.Sound)
    (ho : Preordered g.records)
    (hadd : s.addedAll outer ks = ⟨kind, span, compound, none⟩ :: new.map (relocated 1 (some 0))) :
    ∃ i e, g.get? i = some e ∧ e.kind = kind ∧ e.span = span ∧ e.compound = compound ∧
      e.parent.bind g.span? = outer ∧ g.inside i = new := by
  obtain ⟨parent, f₁, f₂, hs, hplace, hplant, back, hback, hclear⟩ := h
  have planted := records_of_plantAll ks hs hplace hplant
  have put : g.PutUnder f₁.records ⟨kind, span, compound, parent⟩ new back := by
    constructor
    · rw [hback, planted, hadd, List.map_cons, List.map_map, length_records]
      simp only [Function.comp_def, relocated_below, List.append_assoc, List.cons_append]
      rfl
    · intro r hr p hp
      have hsize : f₂.size = f₁.size + 1 + new.length := by
        rw [← length_records, planted, hadd, List.length_append, length_records]
        simp
        omega
      rw [length_records, ← hsize]
      exact (hclear r hr).2 p hp
  have hrec : g.records[f₁.records.length]? = some ⟨kind, span, compound, parent⟩ := by
    rw [put.records_eq, List.getElem?_append_right (Nat.le_refl _), Nat.sub_self]
    rfl
  obtain ⟨e, he, hsame⟩ := exists_of_records hrec
  have place : g.Place parent outer :=
    (hplace.grown (plantAll_grown ks hplant)).extends ⟨back, hback, hclear⟩
  refine ⟨_, e, he, congrArg Record.kind hsame, congrArg Record.span hsame,
    congrArg Record.compound hsame, ?_, put.inside_eq hg ho⟩
  rw [show e.parent = parent from congrArg Record.parent hsame]
  exact place.bind_span?

/-- The first statement of a forest of its own holds what its sketch adds there. -/
theorem inside_of_ofSketch {new : List Record} (hg : ofSketch s ks = .ok g)
    (hadd : s.addedAll none ks = x :: new.map (relocated 1 (some 0))) : g.inside 0 = new := by
  have put : g.PutUnder [] x new [] := by
    constructor
    · rw [records_of_ofSketch hg, hadd, List.append_nil]
      rfl
    · simp
  exact put.inside_eq (sound_of_ofSketch hg) (preordered_of_ofSketch hg)

/-! ## Planting alone -/

section
variable {all : List Sketch} {k : Sketch} {v : Violation} {lo hi : Nat}

/-- What is refused among some sketches is refused where they occur. -/
theorem Refused.within (h : Refused s ks v) (hks : ∀ k ∈ ks, Sketch.Occurs all outer k) :
    Refused s all v := by
  cases h with
  | simple hk he hm => exact .simple (hk.within hks) he hm
  | compound hk he hm => exact .compound (hk.within hks) he hm
  | attachments hk ha => exact .attachments (hk.within hks) ha

/-- What a forest has been built of can be planted by itself. -/
theorem exists_ofSketch_of_occurs (hf : ofSketch s all = .ok f) (hall : ∀ k ∈ all, k.WellPlaced)
    (hks : ∀ k ∈ ks, Sketch.Occurs all outer k) (hrow : Row lo hi (ks.map Sketch.span)) :
    ∃ g, ofSketch s ks = .ok g := by
  cases hg : ofSketch s ks with
  | ok g => exact ⟨g, rfl⟩
  | error v =>
    have placed : Sketch.AllWellPlaced ks :=
      Sketch.allWellPlaced_iff.2 fun k hk => (hks k hk).wellPlaced hall
    have refused := plantAll_refused ks (fun k hk => .top hk) hrow placed room_empty hg
    exact absurd hf ((refused.within hks).not_ok hall)

/-- So can a statement with a body that a forest has been built of, if it covers some text and if
no attachments in its body cover all of it. -/
theorem exists_ofSketch_of_body (hf : ofSketch s all = .ok f) (hall : ∀ k ∈ all, k.WellPlaced)
    (hbody : ∀ l ∈ k.body, Sketch.Occurs all outer l) (hk : k.WellPlaced)
    (haround : k.around none = some k.span) (hsolid : ¬ k.span.Empty)
    (hruns : ∀ run, Sketch.Occurs k.body none (.attachments run) → run.span ≠ k.span) :
    ∃ g, ofSketch s [k] = .ok g := by
  cases hg : ofSketch s [k] with
  | ok g => exact ⟨g, rfl⟩
  | error v =>
    have hrow : Row k.span.start k.span.stop ([k].map Sketch.span) :=
      ⟨Nat.le_refl _, hk.start_le_stop, Nat.le_refl _⟩
    have placed : Sketch.AllWellPlaced [k] := by
      rw [Sketch.allWellPlaced_iff]
      intro l hl
      exact List.mem_singleton.1 hl ▸ hk
    have refused := plantAll_refused [k] (fun l hl => .top hl) hrow placed room_empty hg
    suffices Refused s all v from absurd hf (this.not_ok hall)
    cases refused with
    | simple hl he hm =>
      rcases hl.cases_singleton with ⟨rfl, -⟩ | ⟨o, hl, -⟩
      · exact absurd he hsolid
      · exact .simple (hl.within hbody) he hm
    | compound hl he hm =>
      rcases hl.cases_singleton with ⟨rfl, -⟩ | ⟨o, hl, -⟩
      · exact absurd he hsolid
      · exact .compound (hl.within hbody) he hm
    | @attachments run outerKind hl ha =>
      rcases hl.cases_singleton with ⟨-, hnone⟩ | ⟨o, hl, heq⟩
      · cases hnone
      · cases o with
        | none =>
          rw [haround] at heq
          exact absurd (Option.some.inj heq) (hruns run hl)
        | some t =>
          obtain rfl : run.span = t := Option.some.inj heq
          exact .attachments (hl.within hbody) ha

end

end Forest

end StatementOutline
