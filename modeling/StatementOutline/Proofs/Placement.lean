import StatementOutline.Body

/-!
# Where the parts of a body lie

A parser places the children of a node inside it, one behind the other. The parts of a body are then
one behind the other, too, however deep in clauses and wrappers they are found.

* `Row`: spans that follow one another between two offsets;
* `Node.WellPlaced`: the trees that parsers give;
* `row_parts`: the parts of a body are a row inside the node.
-/

namespace StatementOutline

/-- The spans follow one another from the first offset to the second. -/
def Row : Nat → Nat → List Span → Prop
  | lo, hi, [] => lo ≤ hi
  | lo, hi, s :: ss => lo ≤ s.start ∧ s.start ≤ s.stop ∧ Row s.stop hi ss

namespace Row

variable {lo lo' mid hi hi' : Nat} {s : Span} {ss ts : List Span}

@[simp]
theorem nil_iff : Row lo hi [] ↔ lo ≤ hi :=
  Iff.rfl

@[simp]
theorem cons_iff : Row lo hi (s :: ss) ↔ lo ≤ s.start ∧ s.start ≤ s.stop ∧ Row s.stop hi ss :=
  Iff.rfl

instance decidable : (lo hi : Nat) → (ss : List Span) → Decidable (Row lo hi ss)
  | lo, hi, [] => inferInstanceAs (Decidable (lo ≤ hi))
  | lo, hi, s :: ss =>
    have := decidable s.stop hi ss
    inferInstanceAs (Decidable (lo ≤ s.start ∧ s.start ≤ s.stop ∧ Row s.stop hi ss))

theorem le (h : Row lo hi ss) : lo ≤ hi := by
  induction ss generalizing lo with
  | nil => exact h
  | cons s ss ih =>
    obtain ⟨a, b, c⟩ := h
    exact Nat.le_trans a (Nat.le_trans b (ih c))

theorem widen (h : Row lo hi ss) (hlo : lo' ≤ lo) (hhi : hi ≤ hi') : Row lo' hi' ss := by
  induction ss generalizing lo lo' with
  | nil => exact Nat.le_trans hlo (Nat.le_trans h hhi)
  | cons s ss ih =>
    obtain ⟨a, b, c⟩ := h
    exact ⟨Nat.le_trans hlo a, b, ih c (Nat.le_refl _)⟩

theorem append (h : Row lo mid ss) (h' : Row mid hi ts) : Row lo hi (ss ++ ts) := by
  induction ss generalizing lo with
  | nil => exact h'.widen h (Nat.le_refl _)
  | cons s ss ih =>
    obtain ⟨a, b, c⟩ := h
    exact ⟨a, b, ih c⟩

theorem exists_of_append (h : Row lo hi (ss ++ ts)) : ∃ mid, Row lo mid ss ∧ Row mid hi ts := by
  induction ss generalizing lo with
  | nil => exact ⟨lo, Nat.le_refl _, h⟩
  | cons s ss ih =>
    obtain ⟨a, b, c⟩ := h
    obtain ⟨mid, hs, ht⟩ := ih c
    exact ⟨mid, ⟨a, b, hs⟩, ht⟩

theorem of_mem (h : Row lo hi ss) (hs : s ∈ ss) :
    lo ≤ s.start ∧ s.start ≤ s.stop ∧ s.stop ≤ hi := by
  induction ss generalizing lo with
  | nil => simp at hs
  | cons t ss ih =>
    obtain ⟨a, b, c⟩ := h
    obtain rfl | hs := List.mem_cons.1 hs
    · exact ⟨a, b, c.le⟩
    · obtain ⟨d, e, f⟩ := ih c hs
      exact ⟨by omega, e, f⟩

/-- Each span may be cut into a row of its own. -/
theorem flatMap {α β : Type} {f : α → Span} {g : β → Span} {e : α → List β} {xs : List α}
    (h : Row lo hi (xs.map f)) (each : ∀ x ∈ xs, Row (f x).start (f x).stop ((e x).map g)) :
    Row lo hi ((xs.flatMap e).map g) := by
  induction xs generalizing lo with
  | nil => exact h
  | cons x xs ih =>
    obtain ⟨a, -, c⟩ := h
    rw [List.flatMap_cons, List.map_append]
    have hx := (each x (by simp)).widen a (Nat.le_refl _)
    exact hx.append (ih c fun y hy => each y (by simp [hy]))

end Row

namespace Node

mutual
/-- No node of the tree stops before it starts, and the children of each lie inside it, one behind
the other. -/
def WellPlaced : Node → Prop
  | .mk l cs => Row l.span.start l.span.stop (cs.map Node.span) ∧ AllWellPlaced cs

/-- The same of several trees. -/
def AllWellPlaced : List Node → Prop
  | [] => True
  | c :: cs => c.WellPlaced ∧ AllWellPlaced cs
end

mutual
instance decidableWellPlaced : (n : Node) → Decidable n.WellPlaced
  | .mk l cs =>
    have := decidableAllWellPlaced cs
    decidable_of_iff (Row l.span.start l.span.stop (cs.map Node.span) ∧ AllWellPlaced cs)
      (by rw [WellPlaced])

instance decidableAllWellPlaced : (cs : List Node) → Decidable (AllWellPlaced cs)
  | [] => decidable_of_iff True (by rw [AllWellPlaced])
  | c :: cs =>
    have := decidableWellPlaced c
    have := decidableAllWellPlaced cs
    decidable_of_iff (c.WellPlaced ∧ AllWellPlaced cs) (by rw [AllWellPlaced])
end

variable {n b c d : Node} {before after : List Node}

theorem allWellPlaced_iff {cs : List Node} : AllWellPlaced cs ↔ ∀ c ∈ cs, c.WellPlaced := by
  induction cs with
  | nil => simp [AllWellPlaced]
  | cons c cs ih => simp [AllWellPlaced, ih]

theorem wellPlaced_iff :
    n.WellPlaced ↔ Row n.start n.stop (n.children.map Node.span) ∧
      ∀ c ∈ n.children, c.WellPlaced := by
  cases n with
  | mk l cs => rw [WellPlaced, allWellPlaced_iff]; rfl

theorem WellPlaced.row (h : n.WellPlaced) : Row n.start n.stop (n.children.map Node.span) :=
  (wellPlaced_iff.1 h).1

theorem WellPlaced.of_mem (h : n.WellPlaced) (hc : c ∈ n.children) : c.WellPlaced :=
  (wellPlaced_iff.1 h).2 c hc

theorem WellPlaced.start_le_stop (h : n.WellPlaced) : n.start ≤ n.stop :=
  h.row.le

theorem WellPlaced.inside (h : n.WellPlaced) (hc : c ∈ n.children) :
    n.start ≤ c.start ∧ c.stop ≤ n.stop := by
  obtain ⟨a, -, b⟩ := h.row.of_mem (List.mem_map_of_mem hc)
  exact ⟨a, b⟩

/-- The children in front of a child end before it starts. -/
theorem WellPlaced.stop_le_of_split (h : b.WellPlaced) (hsplit : b.children = before ++ c :: after)
    (hd : d ∈ before) : d.stop ≤ c.start := by
  have hrow := h.row
  rw [hsplit, List.map_append] at hrow
  obtain ⟨mid, hbefore, hc, -⟩ := hrow.exists_of_append
  exact Nat.le_trans (hbefore.of_mem (List.mem_map_of_mem hd)).2.2 hc

/-- The children behind a child start where it has ended. -/
theorem WellPlaced.le_start_of_split (h : b.WellPlaced) (hsplit : b.children = before ++ c :: after)
    (hd : d ∈ after) : c.stop ≤ d.start := by
  have hrow := h.row
  rw [hsplit, List.map_append] at hrow
  obtain ⟨mid, -, -, -, hafter⟩ := hrow.exists_of_append
  exact (hafter.of_mem (List.mem_map_of_mem hd)).1

/-- All nodes below a node lie inside it. -/
theorem WellPlaced.below (h : n.WellPlaced) (hd : Below d n) :
    d.WellPlaced ∧ n.start ≤ d.start ∧ d.stop ≤ n.stop := by
  induction hd with
  | child hc => exact ⟨h.of_mem hc, h.inside hc⟩
  | deeper _ hc ih =>
    obtain ⟨hw, a, b⟩ := ih (h.of_mem hc)
    obtain ⟨a', b'⟩ := h.inside hc
    exact ⟨hw, Nat.le_trans a' a, Nat.le_trans b b'⟩

theorem WellPlaced.of_mem_preorder (h : n.WellPlaced) (hd : d ∈ n.preorder) :
    d.WellPlaced ∧ n.start ≤ d.start ∧ d.stop ≤ n.stop := by
  obtain rfl | hd := mem_preorder_iff.1 hd
  · exact ⟨h, Nat.le_refl _, Nat.le_refl _⟩
  · exact h.below hd

end Node

/-- Where the node of a part lies. -/
def Part.span (p : Part) : Span :=
  p.node.span

namespace Rules

variable {r : Rules} {n c : Node} {lo hi : Nat}

theorem row_singleton (h : n.start ≤ n.stop) (p : Part) (hp : p.node = n) :
    Row n.start n.stop ([p].map Part.span) := by
  simpa [Part.span, hp] using h

mutual
/-- What a piece of a body comes to lies inside it. -/
theorem row_collect : ∀ {n : Node}, n.WellPlaced →
    Row n.start n.stop ((r.collect n).map Part.span)
  | .mk l cs, h => by
    have hle := h.start_le_stop
    unfold collect
    split
    · exact row_singleton hle _ rfl
    · split
      · exact row_singleton hle _ rfl
      · split
        · exact row_collectAll h.row fun c hc => h.of_mem hc
        · split
          · exact row_singleton hle _ rfl
          · exact hle

theorem row_collectAll : ∀ {cs : List Node} {lo hi : Nat}, Row lo hi (cs.map Node.span) →
    (∀ c ∈ cs, c.WellPlaced) → Row lo hi ((r.collectAll cs).map Part.span)
  | [], lo, hi, h, _ => by
    rw [collectAll]
    exact h
  | c :: cs, lo, hi, ⟨a, b, h⟩, hw => by
    unfold collectAll
    rw [List.map_append]
    have first : Row lo c.stop
        ((if c.isSolid && !c.inHeader then r.collect c else []).map Part.span) := by
      split
      · exact (row_collect (hw c (by simp))).widen a (Nat.le_refl _)
      · exact Nat.le_trans a b
    exact first.append (row_collectAll h fun d hd => hw d (by simp [hd]))
end

theorem row_collectField {names : List String} (h : c.WellPlaced) :
    Row c.start c.stop ((r.collectField names c).map Part.span) := by
  have hle := h.start_le_stop
  unfold collectField
  split
  · exact hle
  · split
    · exact row_singleton hle _ rfl
    · split
      · exact row_collect h
      · split
        · exact hle
        · split
          · exact row_collect h
          · exact hle

/-- The parts of a body follow one another inside the node. -/
theorem row_parts {b : Body} (h : n.WellPlaced) :
    Row n.start n.stop ((r.parts n b).map Part.span) := by
  have hle := h.start_le_stop
  fun_induction parts r n b with
  | case1 => exact hle
  | case2 n => exact row_singleton hle _ rfl
  | case3 n names => exact h.row.flatMap fun c hc => row_collectField (h.of_mem hc)
  | case4 n =>
    cases ht : n.lastBodyChild? with
    | none => exact hle
    | some c =>
      have htarget : n.target? none = some c := ht
      have hc : c ∈ n.children := Node.mem_children_of_target? htarget
      obtain ⟨a, b⟩ := h.inside hc
      exact (row_collect (h.of_mem hc)).widen a b
  | case5 n steps =>
    cases he : (n.follow? steps).filter fun e => r.isBlock e.kind with
    | none => exact hle
    | some e =>
      have he' := (Option.filter_eq_some_iff.1 he).1
      obtain rfl | hb := Node.below_of_follow? he'
      · exact row_singleton hle _ rfl
      · obtain ⟨hw, a, b⟩ := h.below hb
        exact (row_singleton hw.start_le_stop (.block e) rfl).widen a b
  | case6 => exact hle
  | case7 n field c hc _ _ =>
    have hc' := Node.mem_children_of_target? hc
    obtain ⟨a, b⟩ := h.inside hc'
    exact (row_singleton (h.of_mem hc').start_le_stop (.block c) rfl).widen a b
  | case8 => exact hle
  | case9 n field c hc _ _ body _ ih =>
    have hc' := Node.mem_children_of_target? hc
    obtain ⟨a, b⟩ := h.inside hc'
    have hw := h.of_mem hc'
    exact (ih hw hw.start_le_stop).widen a b

theorem row_partsOf (h : n.WellPlaced) : Row n.start n.stop ((r.partsOf n).map Part.span) := by
  unfold partsOf
  split
  · exact h.start_le_stop
  · exact row_parts h

/-- A part is the node itself, as a block, or lies below it. -/
theorem below_of_mem_partsOf {p : Part} (h : p ∈ r.partsOf n) :
    p = .block n ∨ Node.Below p.node n := by
  unfold partsOf at h
  split at h
  · simp at h
  · exact below_of_mem_parts h

theorem wellPlaced_of_mem_partsOf {p : Part} (h : n.WellPlaced) (hp : p ∈ r.partsOf n) :
    p.node.WellPlaced := by
  obtain rfl | hb := below_of_mem_partsOf hp
  · exact h
  · exact (h.below hb).1

end Rules

end StatementOutline
