import StatementOutline.Node

/-!
# Places in a tree

Two nodes of a tree can look the same, such as two missing tokens at one offset. What tells them
apart is where they stand: the numbers of the children on the way down from the root. Places are
compared number by number, and a place comes before those that go on from it.

* `map_at?_places`: the places of a tree are those of its nodes in pre-order;
* `mem_places_iff`, `pairwise_places`: every place at which a node stands is listed, in order;
* `Beside`: nodes of a tree that stand side by side, none of them below another.
-/

namespace StatementOutline.Node

mutual
/-- The places of the nodes of a tree in pre-order. -/
def places : Node → List (List Nat)
  | mk _ cs => [] :: placesAll cs

/-- The places of the nodes of several trees, each with the number of its tree in front. -/
def placesAll : List Node → List (List Nat)
  | [] => []
  | c :: cs => c.places.map (0 :: ·) ++ (placesAll cs).map (List.modifyHead (· + 1))
end

/-- The node that stands at a place in several trees. -/
def atAll? (cs : List Node) : List Nat → Option Node
  | [] => none
  | i :: place => cs[i]?.bind fun c => c.at? place

variable {n m c d : Node} {cs ms ms' : List Node} {place p q : List Nat}

@[simp]
theorem at?_nil (n : Node) : n.at? [] = some n := rfl

theorem at?_cons (n : Node) (i : Nat) (place : List Nat) :
    n.at? (i :: place) = atAll? n.children (i :: place) := by
  rw [at?, atAll?]
  cases n.children[i]? <;> rfl

@[simp]
theorem atAll?_zero (c : Node) (cs : List Node) (place : List Nat) :
    atAll? (c :: cs) (0 :: place) = c.at? place := rfl

@[simp]
theorem atAll?_modifyHead (c : Node) (cs : List Node) (place : List Nat) :
    atAll? (c :: cs) (place.modifyHead (· + 1)) = atAll? cs place := by
  cases place <;> rfl

theorem ne_nil_of_mem_placesAll (h : place ∈ placesAll cs) : place ≠ [] := by
  induction cs generalizing place with
  | nil => simp [placesAll] at h
  | cons c cs ih =>
    rintro rfl
    rw [placesAll, List.mem_append, List.mem_map, List.mem_map] at h
    obtain ⟨q, -, hq⟩ | ⟨q, hq, heq⟩ := h
    · exact List.cons_ne_nil _ _ hq
    · cases q with
      | nil => exact ih hq rfl
      | cons i q => simp at heq

theorem at?_eq_atAll? (h : place ≠ []) : n.at? place = atAll? n.children place := by
  cases place with
  | nil => exact absurd rfl h
  | cons i place => exact n.at?_cons i place

mutual
/-- The nodes at the places of a tree are its nodes in pre-order. -/
theorem map_at?_places : ∀ n : Node, n.places.map n.at? = n.preorder.map some
  | mk l cs => by
    have below : (placesAll cs).map (mk l cs).at? = (placesAll cs).map (atAll? cs) :=
      List.map_congr_left fun place h => at?_eq_atAll? (ne_nil_of_mem_placesAll h)
    rw [places, preorder, List.map_cons, List.map_cons, below, map_atAll?_placesAll cs]
    rfl

theorem map_atAll?_placesAll : ∀ cs : List Node,
    (placesAll cs).map (atAll? cs) = (preorderAll cs).map some
  | [] => rfl
  | c :: cs => by
    have first : (c.places.map (0 :: ·)).map (atAll? (c :: cs)) = c.places.map c.at? := by
      simp [Function.comp_def]
    have rest : ((placesAll cs).map (List.modifyHead (· + 1))).map (atAll? (c :: cs)) =
        (placesAll cs).map (atAll? cs) := by
      simp [Function.comp_def]
    rw [placesAll, preorderAll, List.map_append, List.map_append, first, rest,
      map_at?_places c, map_atAll?_placesAll cs]
end

mutual
/-- The places of a tree are those at which a node stands. -/
theorem mem_places_iff {place : List Nat} : ∀ {n : Node},
    place ∈ n.places ↔ ∃ m, n.at? place = some m
  | mk l cs => by
    rw [places, List.mem_cons]
    cases place with
    | nil => simp
    | cons i place => rw [at?_cons, mem_placesAll_iff]; simp [children]

theorem mem_placesAll_iff {place : List Nat} : ∀ {cs : List Node},
    place ∈ placesAll cs ↔ ∃ m, atAll? cs place = some m
  | [] => by cases place <;> simp [placesAll, atAll?]
  | c :: cs => by
    rw [placesAll, List.mem_append, List.mem_map, List.mem_map]
    constructor
    · rintro (⟨q, hq, rfl⟩ | ⟨q, hq, rfl⟩)
      · exact mem_places_iff.1 hq
      · rw [atAll?_modifyHead]
        exact mem_placesAll_iff.1 hq
    · intro h
      cases place with
      | nil => simp [atAll?] at h
      | cons i place =>
        cases i with
        | zero => exact .inl ⟨place, mem_places_iff.2 h, rfl⟩
        | succ i => exact .inr ⟨i :: place, mem_placesAll_iff.2 h, rfl⟩
end

/-! ## The order of places -/

theorem modifyHead_lt_modifyHead (h : p < q) :
    p.modifyHead (· + 1) < q.modifyHead (· + 1) := by
  cases p with
  | nil =>
    cases q with
    | nil => exact absurd h (List.not_lt_nil _)
    | cons j q => exact List.nil_lt_cons _ _
  | cons i p =>
    cases q with
    | nil => exact absurd h (List.not_lt_nil _)
    | cons j q =>
      rw [List.modifyHead_cons, List.modifyHead_cons, List.cons_lt_cons_iff]
      obtain hij | ⟨rfl, hpq⟩ := List.cons_lt_cons_iff.1 h
      · exact .inl (Nat.succ_lt_succ hij)
      · exact .inr ⟨rfl, hpq⟩

theorem zero_cons_lt_modifyHead (hq : q ≠ []) : 0 :: p < q.modifyHead (· + 1) := by
  cases q with
  | nil => exact absurd rfl hq
  | cons j q => simp [List.cons_lt_cons_iff]

mutual
/-- The places of a tree are listed in order, so each is listed once. -/
theorem pairwise_places : ∀ n : Node, n.places.Pairwise (· < ·)
  | mk _ cs => by
    rw [places, List.pairwise_cons]
    refine ⟨fun place h => ?_, pairwise_placesAll cs⟩
    obtain ⟨i, place, rfl⟩ := List.exists_cons_of_ne_nil (ne_nil_of_mem_placesAll h)
    exact List.nil_lt_cons _ _

theorem pairwise_placesAll : ∀ cs : List Node, (placesAll cs).Pairwise (· < ·)
  | [] => .nil
  | c :: cs => by
    rw [placesAll, List.pairwise_append, List.pairwise_map, List.pairwise_map]
    refine ⟨(pairwise_places c).imp fun h => ?_, (pairwise_placesAll cs).imp
      modifyHead_lt_modifyHead, ?_⟩
    · exact List.cons_lt_cons_iff.2 (.inr ⟨rfl, h⟩)
    · intro p hp q hq
      obtain ⟨p, -, rfl⟩ := List.mem_map.1 hp
      obtain ⟨q', hq', rfl⟩ := List.mem_map.1 hq
      exact zero_cons_lt_modifyHead (ne_nil_of_mem_placesAll hq')
end

/-! ## Nodes side by side -/

/-- The first place comes before the second, and neither lies on the way to the other. -/
def Precedes (p q : List Nat) : Prop :=
  p < q ∧ ¬ p <+: q ∧ ¬ q <+: p

/-- The nodes stand in the tree in this order, each at a place of its own and none below another. -/
def Beside (n : Node) (ms : List Node) : Prop :=
  ∃ ps : List (List Nat), ps.map n.at? = ms.map some ∧ ps.Pairwise Precedes

/-- The same in several trees. -/
def BesideAll (cs ms : List Node) : Prop :=
  ∃ ps : List (List Nat), ps.map (atAll? cs) = ms.map some ∧ ps.Pairwise Precedes

theorem Precedes.cons (i : Nat) (h : Precedes p q) : Precedes (i :: p) (i :: q) := by
  obtain ⟨before, hpq, hqp⟩ := h
  refine ⟨List.cons_lt_cons_iff.2 (.inr ⟨rfl, before⟩), ?_, ?_⟩
  · simpa [List.cons_prefix_cons] using hpq
  · simpa [List.cons_prefix_cons] using hqp

theorem modifyHead_prefix_iff :
    p.modifyHead (· + 1) <+: q.modifyHead (· + 1) ↔ p <+: q := by
  cases p with
  | nil => simp
  | cons i p =>
    cases q with
    | nil => simp
    | cons j q => simp [List.cons_prefix_cons]

theorem Precedes.modifyHead (h : Precedes p q) :
    Precedes (p.modifyHead (· + 1)) (q.modifyHead (· + 1)) := by
  obtain ⟨before, hpq, hqp⟩ := h
  exact ⟨modifyHead_lt_modifyHead before, mt modifyHead_prefix_iff.1 hpq,
    mt modifyHead_prefix_iff.1 hqp⟩

theorem precedes_modifyHead (hq : q ≠ []) : Precedes (0 :: p) (q.modifyHead (· + 1)) := by
  have before := zero_cons_lt_modifyHead (p := p) hq
  cases q with
  | nil => exact absurd rfl hq
  | cons j q => exact ⟨before, by simp [List.cons_prefix_cons], by simp [List.cons_prefix_cons]⟩

theorem ne_nil_of_map_atAll? {ps : List (List Nat)} (h : ps.map (atAll? cs) = ms.map some)
    (hq : q ∈ ps) : q ≠ [] := by
  rintro rfl
  have hnone : atAll? cs [] ∈ ms.map some := h ▸ List.mem_map_of_mem hq
  simp [atAll?] at hnone

theorem beside_nil (n : Node) : Beside n [] :=
  ⟨[], rfl, .nil⟩

theorem beside_self (n : Node) : Beside n [n] :=
  ⟨[[]], rfl, List.pairwise_singleton _ _⟩

theorem besideAll_nil (cs : List Node) : BesideAll cs [] :=
  ⟨[], rfl, .nil⟩

/-- Nodes of the first tree stand before nodes of the others. -/
theorem Beside.cons (h : Beside c ms) (h' : BesideAll cs ms') :
    BesideAll (c :: cs) (ms ++ ms') := by
  obtain ⟨ps, hps, before⟩ := h
  obtain ⟨qs, hqs, before'⟩ := h'
  refine ⟨ps.map (0 :: ·) ++ qs.map (List.modifyHead (· + 1)), ?_, ?_⟩
  · simp [Function.comp_def, hps, hqs]
  · rw [List.pairwise_append, List.pairwise_map, List.pairwise_map]
    refine ⟨before.imp (Precedes.cons 0), before'.imp Precedes.modifyHead, ?_⟩
    intro p hp q hq
    obtain ⟨p, -, rfl⟩ := List.mem_map.1 hp
    obtain ⟨q', hq', rfl⟩ := List.mem_map.1 hq
    exact precedes_modifyHead (ne_nil_of_map_atAll? hqs hq')

theorem BesideAll.beside (h : BesideAll n.children ms) : Beside n ms := by
  obtain ⟨ps, hps, before⟩ := h
  refine ⟨ps, ?_, before⟩
  rw [← hps]
  exact List.map_congr_left fun q hq => at?_eq_atAll? (ne_nil_of_map_atAll? hps hq)

/-- Nodes taken from each child in turn stand side by side. -/
theorem besideAll_flatMap {f : Node → List Node} (h : ∀ c ∈ cs, Beside c (f c)) :
    BesideAll cs (cs.flatMap f) := by
  induction cs with
  | nil => exact besideAll_nil _
  | cons c cs ih =>
    rw [List.flatMap_cons]
    exact (h c (by simp)).cons (ih fun d hd => h d (by simp [hd]))

theorem Beside.of_mem (h : Beside c ms) (hc : c ∈ cs) : BesideAll cs ms := by
  induction cs with
  | nil => simp at hc
  | cons d cs ih =>
    obtain rfl | hc := List.mem_cons.1 hc
    · simpa using h.cons (besideAll_nil cs)
    · exact (beside_nil d).cons (ih hc)

/-- Nodes that stand side by side in a child do so in the tree. -/
theorem Beside.of_child (h : Beside c ms) (hc : c ∈ n.children) : Beside n ms :=
  (h.of_mem hc).beside

theorem Beside.of_below (h : Beside d ms) (hd : Below d n) : Beside n ms := by
  induction hd with
  | child hc => exact h.of_child hc
  | deeper _ hc ih => exact ih.of_child hc

end StatementOutline.Node
