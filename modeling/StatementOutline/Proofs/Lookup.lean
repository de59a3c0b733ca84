import StatementOutline.Forest.Lookup
import StatementOutline.Proofs.Preorder

/-!
# Looking up a position

Siblings are in order and do not overlap, so at most one of them owns a byte, and halving finds that
one. The way down ends at a statement none of whose children owns the byte, and all statements that
own the byte are then met on the way.

* `Sound.ownerAmong?_eq_some_iff`: halving finds the child that owns the byte;
* `Sound.descend_spec`: the way down stops where no child owns the byte;
* `Sound.owns_iff_of_innermost?`: the statements that own a byte are the innermost one and those
  around it.
-/

namespace StatementOutline

theorem Span.Owns.mono {s t : Span} {offset : Nat} (h : s.Owns offset) (hstart : t.start ≤ s.start)
    (hstop : s.stop ≤ t.stop) : t.Owns offset :=
  ⟨Nat.le_trans hstart h.1, Nat.lt_of_lt_of_le h.2 hstop⟩

namespace Forest

open Record

variable {f : Forest} {parent found : Option Nat} {byte i j id : Nat} {r x : Record}

/-- The statement with the position owns the byte. -/
def OwnsAt (f : Forest) (byte id : Nat) : Prop :=
  ∃ r, f.records[id]? = some r ∧ r.span.Owns byte

theorem ownsAt_iff (hr : f.records[id]? = some r) : f.OwnsAt byte id ↔ r.span.Owns byte := by
  simp [OwnsAt, hr]

/-! ## One level -/

theorem any_span?_iff {P : Span → Prop} [DecidablePred P] (hr : f.records[id]? = some r) :
    ((f.span? id).any fun s => decide (P s)) = true ↔ P r.span := by
  simp [span?_eq, hr]

theorem Sound.mem_level_iff (hf : f.Sound) :
    id ∈ f.childrenOf parent ↔ ∃ r, f.records[id]? = some r ∧ r.parent = parent := by
  rw [← Array.mem_toList_iff, hf.linked parent, mem_childIds]

/-- A later sibling starts where an earlier one has ended. -/
theorem Sound.pairwise_level (hf : f.Sound) (parent : Option Nat) :
    (f.childrenOf parent).toList.Pairwise fun i j => ∃ x r, f.records[i]? = some x ∧
      f.records[j]? = some r ∧ x.span.stop ≤ r.span.start := by
  rw [hf.linked parent]
  refine (pairwise_childIds f.records parent).imp_of_mem ?_
  intro i j hi hj hij
  obtain ⟨x, hx, hxp⟩ := mem_childIds.1 hi
  obtain ⟨r, hr, hrp⟩ := mem_childIds.1 hj
  exact ⟨x, r, hx, hr, hf.fitted.after hr hx hij (hxp.trans hrp.symm)⟩

theorem Sound.level_after (hf : f.Sound) {k l : Nat} (hkl : k < l)
    (hi : (f.childrenOf parent)[k]? = some i) (hj : (f.childrenOf parent)[l]? = some j)
    (hx : f.records[i]? = some x) (hr : f.records[j]? = some r) :
    x.span.stop ≤ r.span.start := by
  obtain ⟨hk, rfl⟩ := Array.getElem?_eq_some_iff.1 hi
  obtain ⟨hl, rfl⟩ := Array.getElem?_eq_some_iff.1 hj
  obtain ⟨x', r', hx', hr', after⟩ :=
    List.pairwise_iff_getElem.1 (hf.pairwise_level parent) k l hk hl hkl
  obtain rfl := Option.some.inj (hx.symm.trans hx')
  obtain rfl := Option.some.inj (hr.symm.trans hr')
  exact after

/-- Those that start at or before a byte are a front part of their level. -/
theorem Sound.holdsInFront (hf : f.Sound) (byte : Nat) (parent : Option Nat) :
    HoldsInFront (fun id => (f.span? id).any fun s => decide (s.start ≤ byte))
      (f.childrenOf parent) := by
  intro k l hl hkl hstart
  have hk := Nat.lt_trans hkl hl
  obtain ⟨x, hx, -⟩ := hf.mem_level_iff.1 (Array.getElem_mem hk)
  obtain ⟨r, hr, -⟩ := hf.mem_level_iff.1 (Array.getElem_mem hl)
  have after := hf.level_after hkl (Array.getElem?_eq_getElem hk) (Array.getElem?_eq_getElem hl)
    hx hr
  have solid := hf.fitted.solid hx
  rw [any_span?_iff (P := fun s => s.start ≤ byte) hr] at hstart
  rw [any_span?_iff (P := fun s => s.start ≤ byte) hx]
  omega

/-- Among the children of a statement the one that owns the byte is found. -/
theorem Sound.ownerAmong?_eq_some_iff (hf : f.Sound) :
    f.ownerAmong? byte (f.childrenOf parent) = some id ↔
      ∃ r, f.records[id]? = some r ∧ r.parent = parent ∧ r.span.Owns byte := by
  obtain ⟨-, front⟩ := partitionPoint_spec (hf.holdsInFront byte parent)
  have starts : ∀ {k i x}, (f.childrenOf parent)[k]? = some i → f.records[i]? = some x →
      (x.span.start ≤ byte ↔ k < partitionPoint
        (fun id => (f.span? id).any fun s => decide (s.start ≤ byte)) (f.childrenOf parent)) := by
    intro k i x hi hx
    obtain ⟨hk, rfl⟩ := Array.getElem?_eq_some_iff.1 hi
    rw [← front k hk, any_span?_iff (P := fun s => s.start ≤ byte) hx]
  unfold ownerAmong?
  split
  · next hpoint =>
    -- Every child starts behind the byte.
    simp only [reduceCtorEq, false_iff]
    rintro ⟨r, hr, hp, howns⟩
    obtain ⟨k, hk⟩ := Array.mem_iff_getElem?.1 (hf.mem_level_iff.2 ⟨r, hr, hp⟩)
    have := (starts hk hr).1 howns.1
    omega
  · next n hpoint =>
    rw [Option.filter_eq_some_iff]
    constructor
    · rintro ⟨hid, hstop⟩
      obtain ⟨r, hr, hp⟩ := hf.mem_level_iff.1 (Array.mem_of_getElem? hid)
      rw [any_span?_iff (P := fun s => byte < s.stop) hr] at hstop
      exact ⟨r, hr, hp, (starts hid hr).2 (by omega), hstop⟩
    · rintro ⟨r, hr, hp, howns⟩
      obtain ⟨k, hk⟩ := Array.mem_iff_getElem?.1 (hf.mem_level_iff.2 ⟨r, hr, hp⟩)
      have hkn := (starts hk hr).1 howns.1
      rw [any_span?_iff (P := fun s => byte < s.stop) hr]
      refine ⟨?_, howns.2⟩
      obtain hlt | rfl : k < n ∨ k = n := by omega
      · -- A sibling further behind would start behind the end of the owner.
        obtain ⟨hsize, -⟩ := partitionPoint_spec (hf.holdsInFront byte parent)
        have hlast : n < (f.childrenOf parent).size := by omega
        have hn := Array.getElem?_eq_getElem hlast
        obtain ⟨x, hx, -⟩ := hf.mem_level_iff.1 (Array.mem_of_getElem? hn)
        have before := (starts hn hx).2 (by omega)
        have after := hf.level_after hlt hk hn hr hx
        have := howns.2
        omega
      · exact hk

theorem Sound.ownerAmong?_eq_none_iff (hf : f.Sound) :
    f.ownerAmong? byte (f.childrenOf parent) = none ↔
      ∀ (i : Nat) x, f.records[i]? = some x → x.parent = parent → ¬ x.span.Owns byte := by
  rw [Option.eq_none_iff_forall_ne_some]
  constructor
  · intro h i x hx hp howns
    exact h i (hf.ownerAmong?_eq_some_iff.2 ⟨x, hx, hp, howns⟩)
  · intro h i hi
    obtain ⟨r, hr, hp, howns⟩ := hf.ownerAmong?_eq_some_iff.1 hi
    exact h i r hr hp howns

/-! ## The way down -/

/-- The statement owns the byte, and none of its children does. Without a statement, none at the top
owns the byte. -/
structure Innermost (f : Forest) (byte : Nat) (found : Option Nat) : Prop where
  owns : ∀ id, found = some id → f.OwnsAt byte id
  last : ∀ (i : Nat) x, f.records[i]? = some x → x.parent = found → ¬ x.span.Owns byte

/-- With a level left for each statement behind the one found, the way down goes to its end: a child
is stored behind its parent. -/
theorem Sound.descend_spec (hf : f.Sound) {levels : Nat}
    (howns : ∀ id, found = some id → f.OwnsAt byte id)
    (hlevels : ∀ (i : Nat) x, f.records[i]? = some x → x.parent = found → f.size ≤ levels + i) :
    f.Innermost byte (f.descend byte levels (f.childrenOf found) found) := by
  induction levels generalizing found with
  | zero =>
    refine ⟨howns, ?_⟩
    intro i x hx hp
    have := hlevels i x hx hp
    obtain ⟨hi, -⟩ := List.getElem?_eq_some_iff.1 hx
    rw [length_records] at hi
    omega
  | succ levels ih =>
    rw [descend]
    cases hid : f.ownerAmong? byte (f.childrenOf found) with
    | none => exact ⟨howns, hf.ownerAmong?_eq_none_iff.1 hid⟩
    | some id =>
      obtain ⟨r, hr, hp, hrowns⟩ := hf.ownerAmong?_eq_some_iff.1 hid
      refine ih ?_ ?_
      · rintro _ ⟨⟩
        exact ⟨r, hr, hrowns⟩
      · intro i x hx hxp
        have := hlevels id r hr hp
        have := hf.fitted.parent_lt hx hxp
        omega

theorem Sound.innermost (hf : f.Sound) (byte : Nat) : f.Innermost byte (f.innermost? byte) := by
  have owns : ∀ id, none = some id → f.OwnsAt byte id := by
    intro id h
    cases h
  exact hf.descend_spec owns fun i x _ _ => Nat.le_add_right _ _

/-- What a statement owns is owned by all around it. -/
theorem OwnsAt.of_under (h : f.OwnsAt byte j) (hf : f.Sound)
    (hij : i = j ∨ Under f.records i j) : f.OwnsAt byte i := by
  obtain rfl | hij := hij
  · exact h
  obtain ⟨r, hr, howns⟩ := h
  obtain ⟨hj, -⟩ := List.getElem?_eq_some_iff.1 hr
  have hi := List.getElem?_eq_getElem (Nat.lt_trans (hij.lt hf.fitted) hj)
  have hin := hij.strictlyInside hf.fitted hi hr
  exact ⟨_, hi, howns.mono hin.1 hin.2.1⟩

/-- Of two statements that own a byte one lies below the other. -/
theorem Sound.under_of_ownsAt (hf : f.Sound) (ho : Preordered f.records) (hi : f.OwnsAt byte i)
    (hj : f.OwnsAt byte j) (hij : i < j) : Under f.records i j := by
  obtain ⟨x, hx, hxo⟩ := hi
  obtain ⟨r, hr, hro⟩ := hj
  obtain h | h := under_or_before hf.fitted ho hx hr hij
  · exact h
  · have := hxo.2
    have := hro.1
    omega

/-- A statement owns a byte exactly when it is the innermost one that does or lies around that. -/
theorem Sound.owns_iff_of_innermost? (hf : f.Sound) (ho : Preordered f.records) :
    f.OwnsAt byte j ↔ ∃ id, f.innermost? byte = some id ∧ (j = id ∨ Under f.records j id) := by
  obtain ⟨owns, last⟩ := hf.innermost byte
  constructor
  · intro hj
    cases hid : f.innermost? byte with
    | none =>
      -- The statement at the top around this one would own the byte, too.
      have ⟨r, hr, _⟩ := hj
      obtain ⟨c, x, hx, hxp, hc⟩ := exists_root hf.fitted hr
      have howns := (ownsAt_iff hx).1 (hj.of_under hf hc)
      exact absurd howns (last c x hx (hxp.trans hid.symm))
    | some id =>
      refine ⟨id, rfl, ?_⟩
      obtain hlt | rfl | hgt := Nat.lt_trichotomy j id
      · exact .inr (hf.under_of_ownsAt ho hj (owns id hid) hlt)
      · exact .inl rfl
      · -- On the way down to this one a child of the innermost one would own the byte.
        have below := hf.under_of_ownsAt ho (owns id hid) hj hgt
        obtain ⟨c, x, hx, hxp, hc⟩ := below.exists_child
        have howns := (ownsAt_iff hx).1 (hj.of_under hf hc)
        exact absurd howns (last c x hx (hxp.trans hid.symm))
  · rintro ⟨id, hid, rfl | hj⟩
    · exact owns j hid
    · exact (owns id hid).of_under hf (.inr hj)

end Forest

end StatementOutline
