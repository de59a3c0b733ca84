import StatementOutline.Grammar
import StatementOutline.Node

/-!
# The parts of a body

The body of a statement consists of parts: blocks, whose members are nested statements; single
statements that stand where a block could; and errors. A statement is compound when one of its
parts is a block.
-/

namespace StatementOutline

/-- One piece of the body of a statement. -/
inductive Part
  | block (node : Node)
  | inline (node : Node)
  | recovered (node : Node)

namespace Part

def node : Part → Node
  | block n | inline n | recovered n => n

def isBlock : Part → Bool
  | block _ => true
  | _ => false

end Part

namespace Node

/-- The node belongs to the head of its parent. -/
def inHeader (n : Node) : Bool :=
  n.field.any isHeaderField

/-- The node may hold a part of its parent's body, as far as its marks go. -/
def isSolid (n : Node) : Bool :=
  n.named && !n.isComment

/-- The last child that is not a comment and does not belong to the head. A body without a field of
its own stands there. -/
def lastBodyChild? (n : Node) : Option Node :=
  n.children.reverse.find? fun c => c.isSolid && !c.inHeader

/-- The statement that a node wraps: in the given field, or its last body child. -/
def target? (n : Node) : Option String → Option Node
  | some field => n.childInField? field
  | none => n.lastBodyChild?

/-- One step along a path: a field of that name, or else a named child of that kind. -/
def step? (n : Node) (name : String) : Option Node :=
  n.childInField? name <|> n.childOfKind? name

/-- The end of a path. -/
def follow? : Node → List String → Option Node
  | n, [] => some n
  | n, name :: names =>
    match n.step? name with
    | none => none
    | some c => c.follow? names

theorem mem_children_of_target? {n c : Node} {field : Option String}
    (h : n.target? field = some c) : c ∈ n.children := by
  cases field with
  | some f => exact List.mem_of_find?_eq_some h
  | none => exact List.mem_reverse.1 (List.mem_of_find?_eq_some h)

theorem mem_children_of_step? {n c : Node} {name : String} (h : n.step? name = some c) :
    c ∈ n.children := by
  unfold step? at h
  cases hf : n.childInField? name with
  | some d =>
    rw [hf] at h
    obtain rfl : d = c := by simpa using h
    exact List.mem_of_find?_eq_some hf
  | none =>
    rw [hf] at h
    have hk : n.childOfKind? name = some c := by simpa using h
    exact List.mem_of_find?_eq_some hk

theorem below_of_follow? {n e : Node} {names : List String} (h : n.follow? names = some e) :
    e = n ∨ Below e n := by
  induction names generalizing n with
  | nil => exact .inl (by simpa [follow?] using h.symm)
  | cons name names ih =>
    unfold follow? at h
    split at h
    · simp at h
    · next c hc =>
      have hcn : Below c n := .child (mem_children_of_step? hc)
      rcases ih h with rfl | hb
      · exact .inr hcn
      · exact .inr (hb.trans hcn)

end Node

namespace Rules

mutual
/-- The parts that one piece of a body comes to. A clause is opened and gives the parts of its
children. -/
def collect (r : Rules) : Node → List Part
  | .mk l cs =>
    if l.error then [.recovered (.mk l cs)]
    else if r.isBlock l.kind then [.block (.mk l cs)]
    else if r.isClause l.kind then r.collectAll cs
    else if r.isStatement l.kind then [.inline (.mk l cs)]
    else []

/-- The parts that the children of a clause come to. -/
def collectAll (r : Rules) : List Node → List Part
  | [] => []
  | c :: cs =>
    (if c.isSolid && !c.inHeader then r.collect c else []) ++ r.collectAll cs
end

/-- The parts that a child comes to when the body is found in some fields. Errors are taken from
every field, clauses from every field that is not part of the head. -/
def collectField (r : Rules) (names : List String) (c : Node) : List Part :=
  if !c.isSolid || c.missing then []
  else if c.error then [.recovered c]
  else if c.field.any names.contains then r.collect c
  else if c.inHeader then []
  else if r.isClause c.kind then r.collect c
  else []

/-- The parts of a node's body, in document order. A wrapper has the parts of what it wraps. -/
def parts (r : Rules) (n : Node) : Body → List Part
  | .simple => []
  | .members => [.block n]
  | .fields names => n.children.flatMap (r.collectField names)
  | .tail => (n.lastBodyChild?.map r.collect).getD []
  | .path steps => ((n.follow? steps).filter fun e => r.isBlock e.kind).toList.map .block
  | .target field =>
    match h : n.target? field with
    | none => []
    | some c =>
      have := Node.sizeOf_child (Node.mem_children_of_target? h)
      if r.isBlock c.kind then [.block c]
      else match r.body? c.kind with
        | none => []
        | some body => r.parts c body
termination_by sizeOf n

/-! ## Where parts lie -/

mutual
theorem below_of_mem_collect {r : Rules} {p : Part} :
    ∀ {n : Node}, p ∈ r.collect n → p.node = n ∨ Node.Below p.node n
  | .mk l cs, h => by
    unfold collect at h
    split at h
    · obtain rfl := List.mem_singleton.1 h
      exact .inl rfl
    · split at h
      · obtain rfl := List.mem_singleton.1 h
        exact .inl rfl
      · split at h
        · obtain ⟨c, hc, hp⟩ := below_of_mem_collectAll h
          have hcn : Node.Below c (.mk l cs) := .child hc
          rcases hp with hp | hp
          · exact .inr (hp ▸ hcn)
          · exact .inr (hp.trans hcn)
        · split at h
          · obtain rfl := List.mem_singleton.1 h
            exact .inl rfl
          · simp at h

theorem below_of_mem_collectAll {r : Rules} {p : Part} :
    ∀ {cs : List Node}, p ∈ r.collectAll cs → ∃ c ∈ cs, p.node = c ∨ Node.Below p.node c
  | [], h => by simp [collectAll] at h
  | c :: cs, h => by
    unfold collectAll at h
    rcases List.mem_append.1 h with h | h
    · split at h
      · exact ⟨c, by simp, below_of_mem_collect h⟩
      · simp at h
    · obtain ⟨d, hd, hp⟩ := below_of_mem_collectAll h
      exact ⟨d, by simp [hd], hp⟩
end

theorem below_of_mem_collectField {r : Rules} {p : Part} {names : List String} {c : Node}
    (h : p ∈ r.collectField names c) : p.node = c ∨ Node.Below p.node c := by
  unfold collectField at h
  split at h
  · simp at h
  · split at h
    · obtain rfl := List.mem_singleton.1 h
      exact .inl rfl
    · split at h
      · exact below_of_mem_collect h
      · split at h
        · simp at h
        · split at h
          · exact below_of_mem_collect h
          · simp at h

/-- A part is the node itself, as a block, or lies below it. -/
theorem below_of_mem_parts {r : Rules} {p : Part} {n : Node} {b : Body} (h : p ∈ r.parts n b) :
    p = .block n ∨ Node.Below p.node n := by
  fun_induction parts r n b with
  | case1 => simp at h
  | case2 => exact .inl (by simpa using h)
  | case3 n names =>
    obtain ⟨c, hc, hp⟩ := List.mem_flatMap.1 h
    have hcn : Node.Below c n := .child hc
    rcases below_of_mem_collectField hp with hp | hp
    · exact .inr (hp ▸ hcn)
    · exact .inr (hp.trans hcn)
  | case4 n =>
    cases ht : n.lastBodyChild? with
    | none => simp [ht] at h
    | some c =>
      have hc : n.target? none = some c := ht
      have hcn : Node.Below c n := .child (Node.mem_children_of_target? hc)
      rw [ht] at h
      rcases below_of_mem_collect (n := c) (by simpa using h) with hp | hp
      · exact .inr (hp ▸ hcn)
      · exact .inr (hp.trans hcn)
  | case5 n steps =>
    simp only [List.mem_map, Option.mem_toList, Option.filter_eq_some_iff] at h
    obtain ⟨e, ⟨he, _⟩, rfl⟩ := h
    rcases Node.below_of_follow? he with rfl | hb
    · exact .inl rfl
    · exact .inr hb
  | case6 => simp at h
  | case7 n field c hc _ _ =>
    obtain rfl := List.mem_singleton.1 h
    exact .inr (.child (Node.mem_children_of_target? hc))
  | case8 => simp at h
  | case9 n field c hc _ _ body _ ih =>
    have hcn : Node.Below c n := .child (Node.mem_children_of_target? hc)
    rcases ih h with rfl | hb
    · exact .inr hcn
    · exact .inr (hb.trans hcn)

/-- The parts of a node's body, going by its kind. A node that is no statement has none. -/
def partsOf (r : Rules) (n : Node) : List Part :=
  match r.body? n.kind with
  | none => []
  | some body => r.parts n body

/-- The parts of the body of a wrapper are those of what it wraps. -/
theorem parts_target (r : Rules) (n : Node) (field : Option String) :
    r.parts n (.target field) = ((n.target? field).map fun c =>
      if r.isBlock c.kind then [.block c] else r.partsOf c).getD [] := by
  rw [parts]
  split
  · next h => simp only [h, Option.map_none, Option.getD_none]
  · next c h => simp only [h, Option.map_some, Option.getD_some]; rfl

/-- Whether a node is a statement with a block in its body. -/
def isCompound (r : Rules) (n : Node) : Bool :=
  (r.partsOf n).any Part.isBlock

end Rules

end StatementOutline
