import Mathlib.Data.Nat.Find
import StatementOutline.Grammar.Profile
import StatementOutline.Proofs.Planting

/-!
# Positions are pre-order

A forest takes a statement under any older one, so the rules of a push alone do not make positions
pre-order. They are so when each statement is put on the path to the last one, and planting never
does anything else.

* `under_or_before`: of two records in such an order the second lies below the first or behind it;
* `Grown.preordered`: what planting leads to is in that order;
* `inPreorder_of_ofSketch`: in a built forest positions follow the spans, each subtree is a block of
  positions, and parents are told from spans alone.
-/

namespace StatementOutline

namespace Span

/-- The span comes first: it starts earlier, or at the same place and stops later. -/
def Precedes (s t : Span) : Prop :=
  s.start < t.start ∨ s.start = t.start ∧ t.stop < s.stop

variable {s t u : Span}

theorem StrictlyInside.trans (h : s.StrictlyInside t) (h' : t.StrictlyInside u) :
    s.StrictlyInside u := by
  obtain ⟨a, b, hne⟩ := h
  obtain ⟨c, d, -⟩ := h'
  refine ⟨Nat.le_trans c a, Nat.le_trans b d, ?_⟩
  rintro rfl
  apply hne
  cases s
  cases t
  simp only [mk.injEq] at *
  omega

theorem StrictlyInside.not_symm (h : s.StrictlyInside t) : ¬ t.StrictlyInside s := by
  intro h'
  exact (h.trans h').2.2 rfl

theorem StrictlyInside.precedes (h : s.StrictlyInside t) : t.Precedes s := by
  obtain ⟨a, b, hne⟩ := h
  have : ¬ (s.start = t.start ∧ s.stop = t.stop) := by
    rintro ⟨c, d⟩
    apply hne
    cases s
    cases t
    simp_all
  unfold Precedes
  omega

end Span

namespace Record

variable {rs new : List Record} {c i j k p : Nat} {a b r x : Record}

/-! ## Below a record -/

/-- The second position lies below the first one. -/
inductive Under (rs : List Record) (i : Nat) : Nat → Prop
  | child {j : Nat} {r : Record} : rs[j]? = some r → r.parent = some i → Under rs i j
  | deeper {j k : Nat} {r : Record} : Under rs i k → rs[j]? = some r → r.parent = some k →
      Under rs i j

theorem Under.trans (h : Under rs i k) (h' : Under rs k j) : Under rs i j := by
  induction h' with
  | child hr hp => exact .deeper h hr hp
  | deeper _ hr hp ih => exact .deeper ih hr hp

theorem Under.append (h : Under rs i j) : Under (rs ++ new) i j := by
  induction h with
  | child hr hp => exact .child (getElem?_append_some hr) hp
  | deeper _ hr hp ih => exact .deeper ih (getElem?_append_some hr) hp

/-- The way up from a record goes through its parent. -/
theorem under_iff (hr : rs[j]? = some r) :
    Under rs i j ↔ ∃ p, r.parent = some p ∧ (i = p ∨ Under rs i p) := by
  constructor
  · intro h
    cases h with
    | child hr' hp =>
      rw [hr] at hr'
      cases hr'
      exact ⟨i, hp, .inl rfl⟩
    | deeper h' hr' hp =>
      rw [hr] at hr'
      cases hr'
      exact ⟨_, hp, .inr h'⟩
  · rintro ⟨p, hp, rfl | h⟩
    · exact .child hr hp
    · exact .deeper h hr hp

theorem Under.lt (h : Under rs i j) (hrs : Fitted rs) : i < j := by
  induction h with
  | child hr hp => exact hrs.parent_lt hr hp
  | deeper _ hr hp ih => exact Nat.lt_trans ih (hrs.parent_lt hr hp)

theorem Under.strictlyInside (h : Under rs i j) (hrs : Fitted rs) (ha : rs[i]? = some a)
    (hb : rs[j]? = some b) : b.span.StrictlyInside a.span := by
  induction h generalizing b with
  | child hr hp =>
    rw [hr] at hb
    cases hb
    exact hrs.strictlyInside hr hp ha
  | deeper _ hr hp ih =>
    rw [hr] at hb
    cases hb
    obtain ⟨-, outer, ho, hin⟩ := hrs.inside hr hp
    exact hin.trans (ih ho)

theorem Under.exists_record (h : Under rs i j) : ∃ r, rs[j]? = some r := by
  cases h with
  | child hr _ => exact ⟨_, hr⟩
  | deeper _ hr _ => exact ⟨_, hr⟩

/-- Below a record the way up ends in one of its children. -/
theorem Under.exists_child (h : Under rs i j) :
    ∃ c r, rs[c]? = some r ∧ r.parent = some i ∧ (c = j ∨ Under rs c j) := by
  induction h with
  | child hr hp => exact ⟨_, _, hr, hp, .inl rfl⟩
  | deeper _ hr hp ih =>
    obtain ⟨c, x, hx, hxp, rfl | hc⟩ := ih
    · exact ⟨c, x, hx, hxp, .inr (.child hr hp)⟩
    · exact ⟨c, x, hx, hxp, .inr (.deeper hc hr hp)⟩

/-- The way up from any record ends in one at the top. -/
theorem exists_root (hrs : Fitted rs) (hr : rs[j]? = some r) :
    ∃ c x, rs[c]? = some x ∧ x.parent = none ∧ (c = j ∨ Under rs c j) := by
  induction j using Nat.strongRecOn generalizing r with
  | ind j ih =>
    cases hp : r.parent with
    | none => exact ⟨j, r, hr, hp, .inl rfl⟩
    | some p =>
      obtain ⟨hlt, outer, ho, -⟩ := hrs.inside hr hp
      obtain ⟨c, x, hx, hxp, rfl | hc⟩ := ih p hlt ho
      · exact ⟨c, x, hx, hxp, .inr (.child hr hp)⟩
      · exact ⟨c, x, hx, hxp, .inr (.deeper hc hr hp)⟩

/-! ## Records in pre-order -/

/-- Everything behind the position lies below it; the top counts as a position before all. -/
def OnSpine (rs : List Record) (parent : Option Nat) : Prop :=
  ∀ p, parent = some p → ∀ i, p < i → i < rs.length → Under rs p i

/-- Each record was put on the path to the last one before it. -/
def Preordered (rs : List Record) : Prop :=
  ∀ (j : Nat) r p, rs[j]? = some r → r.parent = some p → ∀ i, p < i → i < j → Under rs p i

theorem preordered_nil : Preordered [] := by
  intro j r p hr
  simp at hr

theorem Preordered.append (h : Preordered rs) (hs : OnSpine rs r.parent) :
    Preordered (rs ++ [r]) := by
  intro j x p hx hp i hpi hij
  rcases getElem?_concat_cases hx with hx | ⟨rfl, rfl⟩
  · exact (h j x p hx hp i hpi hij).append
  · exact (hs p hp i hpi hij).append

/-- What is added under a position on the spine leaves that position on the spine. -/
theorem OnSpine.append (h : OnSpine rs r.parent) : OnSpine (rs ++ [r]) r.parent := by
  intro p hp i hpi hi
  rw [List.length_append, List.length_singleton] at hi
  by_cases hlt : i < rs.length
  · exact (h p hp i hpi hlt).append
  · obtain rfl : i = rs.length := by omega
    exact .child List.getElem?_concat_length hp

/-- What stands at a sibling or below it ends before a later sibling starts. -/
theorem stop_le_of_sibling (hrs : Fitted rs) (ha : rs[i]? = some a) (hb : rs[j]? = some b)
    (hij : i < j) (hc : rs[c]? = some x) (hp : x.parent = b.parent) (hci : c = i ∨ Under rs c i) :
    a.span.stop ≤ b.span.start := by
  rcases hci with rfl | hci
  · rw [hc] at ha
    cases ha
    exact hrs.after hb hc hij hp
  · have hin := hci.strictlyInside hrs hc ha
    exact Nat.le_trans hin.2.1 (hrs.after hb hc (Nat.lt_trans (hci.lt hrs) hij) hp)

/-- Of two records the second lies below the first, or starts where the first has ended. -/
theorem under_or_before (hrs : Fitted rs) (ho : Preordered rs) (ha : rs[i]? = some a)
    (hb : rs[j]? = some b) (hij : i < j) : Under rs i j ∨ a.span.stop ≤ b.span.start := by
  induction j using Nat.strongRecOn generalizing b with
  | ind j ih =>
    cases hp : b.parent with
    | none =>
      obtain ⟨c, x, hx, hxp, hc⟩ := exists_root hrs ha
      exact .inr (stop_le_of_sibling hrs ha hb hij hx (hxp.trans hp.symm) hc)
    | some p =>
      obtain ⟨hpj, outer, hout, hin⟩ := hrs.inside hb hp
      rcases Nat.lt_trichotomy i p with hip | rfl | hpi
      · rcases ih p hpj hout hip with h | h
        · exact .inl (.deeper h hb hp)
        · exact .inr (Nat.le_trans h hin.1)
      · exact .inl (.child hb hp)
      · obtain ⟨c, x, hx, hxp, hc⟩ := (ho j b p hb hp i hpi hij).exists_child
        exact .inr (stop_le_of_sibling hrs ha hb hij hx (hxp.trans hp.symm) hc)

/-- Later positions come later in the source, or inside. -/
theorem precedes_of_lt (hrs : Fitted rs) (ho : Preordered rs) (ha : rs[i]? = some a)
    (hb : rs[j]? = some b) (hij : i < j) : a.span.Precedes b.span := by
  rcases under_or_before hrs ho ha hb hij with h | h
  · exact (h.strictlyInside hrs ha hb).precedes
  · exact .inl (Nat.lt_of_lt_of_le (hrs.solid ha) h)

/-- Nothing stands between a record and what lies below it but what lies below it, too. -/
theorem Under.of_between (h : Under rs i k) (hrs : Fitted rs) (ho : Preordered rs) (hij : i < j)
    (hjk : j < k) : Under rs i j := by
  obtain ⟨c, hc⟩ := h.exists_record
  obtain ⟨hk, -⟩ := List.getElem?_eq_some_iff.1 hc
  obtain ⟨b, hb⟩ : ∃ b, rs[j]? = some b := ⟨_, List.getElem?_eq_getElem (Nat.lt_trans hjk hk)⟩
  obtain ⟨a, ha⟩ : ∃ a, rs[i]? = some a :=
    ⟨_, List.getElem?_eq_getElem (Nat.lt_trans (Nat.lt_trans hij hjk) hk)⟩
  rcases under_or_before hrs ho ha hb hij with h' | before
  · exact h'
  · -- The record between would start behind the first one, and so would the one below it.
    have hin := h.strictlyInside hrs ha hc
    have hbc : b.span.start ≤ c.span.start := by
      rcases precedes_of_lt hrs ho hb hc hjk with hlt | ⟨heq, -⟩
      · exact Nat.le_of_lt hlt
      · exact Nat.le_of_eq heq
    have := hrs.solid hc
    have := hin.2.1
    omega

/-- What lies strictly around a record is found on its way up. -/
theorem under_of_strictlyInside (hrs : Fitted rs) (ho : Preordered rs) (ha : rs[i]? = some a)
    (hb : rs[j]? = some b) (hin : b.span.StrictlyInside a.span) : Under rs i j := by
  have solid := hrs.solid hb
  rcases Nat.lt_trichotomy i j with hij | rfl | hji
  · rcases under_or_before hrs ho ha hb hij with h | h
    · exact h
    · have := hin.2.1
      omega
  · rw [ha] at hb
    cases hb
    exact absurd rfl hin.2.2
  · rcases precedes_of_lt hrs ho hb ha hji with h | ⟨h, h'⟩
    · have := hin.1
      omega
    · have := hin.2.1
      omega

end Record

namespace Forest

open Record

variable {s : Scope} {parent : Option Nat} {f g : Forest}

/-! ## Forests in pre-order -/

/-- Planting under a position on the spine keeps the pre-order and leaves that position there. -/
theorem Grown.preordered (h : Grown s parent f g) (hf : f.Sound) (hs : OnSpine f.records parent)
    (ho : Preordered f.records) : OnSpine g.records parent ∧ Preordered g.records := by
  induction h with
  | refl => exact ⟨hs, ho⟩
  | leaf _ hp _ ih =>
    have hrec := records_of_push hp
    exact ih (hf.push hp) (hrec ▸ OnSpine.append hs) (hrec ▸ ho.append hs)
  | @nest parent f g h i kind span ha hp below _ ih₁ ih₂ =>
    have hrec := records_of_push hp
    have hg := hf.push hp
    have last : OnSpine g.records (some f.size) := by
      rintro p ⟨⟩ i hi hlt
      rw [hrec, List.length_append, length_records, List.length_singleton] at hlt
      omega
    obtain ⟨hs', hh⟩ := ih₁ hg last (hrec ▸ ho.append hs)
    refine ih₂ (below.sound hg) ?_ hh
    -- What was planted lies below the new statement, and that one lies below `parent`.
    rintro p rfl i hpi hi
    have hpf : p < f.size := by
      simpa using (hf.push_eq_ok_iff_fits.1 hp).1.parent_lt rfl
    have old : ∀ {j}, p < j → j < f.size + 1 → Under h.records p j := by
      intro j hpj hj
      obtain ⟨new, hnew, -⟩ := below.extends
      have hj' : j < g.records.length := by
        rwa [hrec, List.length_append, length_records, List.length_singleton]
      rw [hnew]
      exact ((hrec ▸ OnSpine.append hs : OnSpine g.records (some p)) p rfl j hpj hj').append
    by_cases hfi : f.size < i
    · exact (old hpf (Nat.lt_succ_self _)).trans (hs' f.size rfl i hfi hi)
    · exact old hpi (Nat.lt_succ_of_le (Nat.le_of_not_lt hfi))

theorem sound_of_ofSketch {ks : List Sketch} (h : ofSketch s ks = .ok f) : f.Sound :=
  (plantAll_grown ks h).sound sound_empty

theorem preordered_of_ofSketch {ks : List Sketch} (h : ofSketch s ks = .ok f) :
    Preordered f.records :=
  ((plantAll_grown ks h).preordered sound_empty (fun p hp => by cases hp) preordered_nil).2

/-- Only statements that the scope admits are planted. -/
theorem admits_of_ofSketch {ks : List Sketch} (h : ofSketch s ks = .ok f) :
    ∀ r ∈ f.records, s.Admits r.span r.compound :=
  (plantAll_grown ks h).extends.forall_of_empty

theorem compoundParents_of_ofSketch {ks : List Sketch} (h : ofSketch s ks = .ok f) :
    f.CompoundParents := by
  refine (plantAll_grown ks h).compoundParents holder_none ?_
  intro i r hr
  simp at hr

/-- The statements around a statement are those it lies below. -/
theorem Sound.mem_ancestors_iff (hf : f.Sound) {i j : Nat} :
    i ∈ f.ancestors j ↔ Under f.records i j := by
  induction j using Nat.strongRecOn with
  | ind j ih =>
    unfold ancestors
    cases he : f.get? j with
    | none =>
      simp only [Option.bind_none, List.not_mem_nil, false_iff]
      intro h
      obtain ⟨r, hr⟩ := h.exists_record
      simp [getElem?_records, he] at hr
    | some e =>
      have hr := records_of_get? he
      rw [under_iff hr]
      cases hp : e.parent with
      | none => simp [Entry.record, hp]
      | some p =>
        have hlt : p < j := hf.fitted.parent_lt hr hp
        simp [Entry.record, hp, if_pos hlt, ih p hlt]

/-- The statements inside a statement stand behind it without a gap. -/
theorem Sound.exists_block (hf : f.Sound) (ho : Preordered f.records) {i : Nat} (hi : i < f.size) :
    ∃ stop, i < stop ∧ ∀ j, j = i ∨ i ∈ f.ancestors j ↔ i ≤ j ∧ j < stop := by
  classical
  have some_behind : ∃ j, i < j ∧ ¬ Under f.records i j := by
    refine ⟨f.size, hi, fun h => ?_⟩
    obtain ⟨r, hr⟩ := h.exists_record
    obtain ⟨hlt, -⟩ := List.getElem?_eq_some_iff.1 hr
    rw [length_records] at hlt
    exact Nat.lt_irrefl _ hlt
  obtain ⟨hlt, hstop⟩ := Nat.find_spec some_behind
  refine ⟨Nat.find some_behind, hlt, fun j => ?_⟩
  rw [hf.mem_ancestors_iff]
  constructor
  · rintro (rfl | h)
    · exact ⟨Nat.le_refl j, hlt⟩
    · refine ⟨Nat.le_of_lt (h.lt hf.fitted), Nat.lt_of_not_le fun hle => hstop ?_⟩
      rcases Nat.lt_or_eq_of_le hle with hlt' | heq
      · exact h.of_between hf.fitted ho hlt hlt'
      · rwa [heq]
  · rintro ⟨hij, hj⟩
    rcases Nat.lt_or_eq_of_le hij with hij | rfl
    · by_cases h : Under f.records i j
      · exact .inr h
      · exact absurd ⟨hij, h⟩ (Nat.find_min some_behind hj)
    · exact .inl rfl

variable {i p : Nat} {e : Entry}

/-- A statement is at the top exactly when no statement lies strictly around it. -/
theorem Sound.parent_eq_none_iff (hf : f.Sound) (ho : Preordered f.records)
    (he : f.get? i = some e) :
    e.parent = none ↔ ∀ j x, f.get? j = some x → ¬ e.span.StrictlyInside x.span := by
  have hr := records_of_get? he
  constructor
  · intro hp j x hx hin
    have hx' := records_of_get? hx
    obtain ⟨p, hp', -⟩ := (under_iff hr).1 (under_of_strictlyInside hf.fitted ho hx' hr hin)
    rw [show e.record.parent = e.parent from rfl, hp] at hp'
    cases hp'
  · intro h
    cases hp : e.parent with
    | none => rfl
    | some p =>
      obtain ⟨-, outer, hout, hin⟩ := hf.fitted.inside hr hp
      obtain ⟨x, hx, rfl⟩ := exists_of_records hout
      exact absurd hin (h p x hx)

/-- The parent of a statement is the one with the smallest span strictly around it. -/
theorem Sound.parent_eq_some_iff (hf : f.Sound) (ho : Preordered f.records)
    (he : f.get? i = some e) :
    e.parent = some p ↔ ∃ outer, f.get? p = some outer ∧ e.span.StrictlyInside outer.span ∧
      ∀ j x, f.get? j = some x → e.span.StrictlyInside x.span →
        j = p ∨ outer.span.StrictlyInside x.span := by
  have hr := records_of_get? he
  -- Whatever lies strictly around the statement is its parent or lies around that.
  have smallest : ∀ {q}, e.parent = some q → ∃ outer, f.get? q = some outer ∧
      e.span.StrictlyInside outer.span ∧ ∀ j x, f.get? j = some x →
        e.span.StrictlyInside x.span → j = q ∨ outer.span.StrictlyInside x.span := by
    intro q hq
    obtain ⟨-, outer, hout, hin⟩ := hf.fitted.inside hr hq
    obtain ⟨o, hoq, rfl⟩ := exists_of_records hout
    refine ⟨o, hoq, hin, fun j x hx hxin => ?_⟩
    have hx' := records_of_get? hx
    obtain ⟨q', hq', hj⟩ := (under_iff hr).1 (under_of_strictlyInside hf.fitted ho hx' hr hxin)
    obtain rfl : q = q' := Option.some.inj (hq.symm.trans hq')
    exact hj.imp id fun h => h.strictlyInside hf.fitted hx' hout
  constructor
  · exact smallest
  · rintro ⟨outer, hout, hin, hmin⟩
    cases hq : e.parent with
    | none => exact absurd hin ((hf.parent_eq_none_iff ho he).1 hq p outer hout)
    | some q =>
      obtain ⟨o, hoq, hoin, homin⟩ := smallest hq
      rcases hmin q o hoq hoin with rfl | h
      · rfl
      · rcases homin p outer hout hin with rfl | h'
        · rfl
        · exact absurd h h'.not_symm

/-- Positions are pre-order and the spans tell the hierarchy. -/
structure InPreorder (f : Forest) : Prop where
  /-- A later statement starts later, or at the same place and stops earlier. -/
  precedes : ∀ i j a b, f.get? i = some a → f.get? j = some b → i < j → a.span.Precedes b.span
  /-- A statement and those inside it are a block of positions. -/
  block : ∀ i, i < f.size →
    ∃ stop, i < stop ∧ ∀ j, j = i ∨ i ∈ f.ancestors j ↔ i ≤ j ∧ j < stop
  /-- A statement is at the top when nothing lies strictly around it. -/
  root : ∀ i e, f.get? i = some e →
    (e.parent = none ↔ ∀ j x, f.get? j = some x → ¬ e.span.StrictlyInside x.span)
  /-- Otherwise its parent has the smallest of the spans strictly around it. -/
  parent : ∀ i e p, f.get? i = some e →
    (e.parent = some p ↔ ∃ outer, f.get? p = some outer ∧ e.span.StrictlyInside outer.span ∧
      ∀ j x, f.get? j = some x → e.span.StrictlyInside x.span →
        j = p ∨ outer.span.StrictlyInside x.span)

/-- Whatever the tree, the language and the scope, a forest that is built is in pre-order. -/
theorem inPreorder_of_ofSketch {l : Language} {root : Node}
    (h : ofSketch s (l.rules.sketchRoot root) = .ok f) : f.InPreorder := by
  have hf := sound_of_ofSketch h
  have ho := preordered_of_ofSketch h
  constructor
  · intro i j a b ha hb hij
    exact precedes_of_lt hf.fitted ho (records_of_get? ha) (records_of_get? hb) hij
  · intro i hi
    exact hf.exists_block ho hi
  · intro i e he
    exact hf.parent_eq_none_iff ho he
  · intro i e p he
    exact hf.parent_eq_some_iff ho he

/-- A block of C. -/
def braces (start stop : Nat) (inside : List Node) : Node :=
  .mk ⟨"compound_statement", none, ⟨start, stop⟩, true, false, false, false, false⟩
    (.mk ⟨"\x7b", none, ⟨start, start + 1⟩, false, false, false, false, false⟩ [] ::
      inside ++ [.mk ⟨"\x7d", none, ⟨stop - 1, stop⟩, false, false, false, false, false⟩ []])

/-- Two blocks, the second with a block in it. -/
def threeBlocks : Node :=
  .mk ⟨"translation_unit", none, ⟨0, 6⟩, true, false, false, false, false⟩
    [braces 0 2 [], braces 2 6 [braces 3 5 []]]

/-- The forest of the three blocks. -/
def threeBlocksForest : Forest :=
  ⟨#[⟨"compound_statement", ⟨0, 2⟩, true, none, #[]⟩,
    ⟨"compound_statement", ⟨2, 6⟩, true, none, #[2]⟩,
    ⟨"compound_statement", ⟨3, 5⟩, true, some 1, #[]⟩], #[0, 1]⟩

theorem sketchRoot_threeBlocks : Language.c.rules.sketchRoot threeBlocks =
    [.compound "compound_statement" ⟨0, 2⟩ [],
      .compound "compound_statement" ⟨2, 6⟩ [.compound "compound_statement" ⟨3, 5⟩ []]] := by
  have top : Language.c.rules.rootPieces threeBlocks =
      [.statement 0 (braces 0 2 []), .statement 2 (braces 2 6 [braces 3 5 []])] := rfl
  have first : Language.c.rules.blockPieces (braces 0 2 []) = [] := rfl
  have second : Language.c.rules.blockPieces (braces 2 6 [braces 3 5 []]) =
      [.statement 3 (braces 3 5 [])] := rfl
  have third : Language.c.rules.blockPieces (braces 3 5 []) = [] := rfl
  simp only [Rules.sketchRoot, top, Rules.sketchAll, List.flatMap_cons, List.flatMap_nil]
  rw [Rules.sketch_of_members rfl, Rules.sketch_of_members rfl, first, second]
  simp only [Rules.sketchAll, List.flatMap_cons, List.flatMap_nil]
  rw [Rules.sketch_of_members rfl, third]
  rfl

theorem ofSketch_threeBlocks :
    ofSketch ⟨⟨0, 6⟩, .intersecting⟩ (Language.c.rules.sketchRoot threeBlocks) =
      .ok threeBlocksForest := by
  rw [sketchRoot_threeBlocks]
  rfl

theorem inPreorder_threeBlocks :
    ofSketch ⟨⟨0, 6⟩, .intersecting⟩ (Language.c.rules.sketchRoot threeBlocks) =
      .ok threeBlocksForest ∧ threeBlocksForest.InPreorder :=
  ⟨ofSketch_threeBlocks, inPreorder_of_ofSketch ofSketch_threeBlocks⟩

end Forest

end StatementOutline
