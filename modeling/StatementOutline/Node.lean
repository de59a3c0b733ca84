import StatementOutline.Span

/-!
# Parse trees

A node of a parse tree has a kind, the name of the field through which it hangs on its parent, a
byte span, marks, and its children in document order. Nodes that the parser skipped over, such as
comments, are *extra*; text it could not make sense of is an *error*; and a node it made up to go on
is *missing*.
-/

namespace StatementOutline

/-- What a parser says of a node besides its place in the tree. -/
structure Label where
  kind : String
  field : Option String
  span : Span
  named : Bool
  extra : Bool
  error : Bool
  missing : Bool
  /-- The node or one below it is an error or missing. -/
  damaged : Bool
deriving DecidableEq

inductive Node
  | mk (label : Label) (children : List Node)

namespace Node

def label : Node → Label
  | mk l _ => l

def children : Node → List Node
  | mk _ cs => cs

abbrev kind (n : Node) : String := n.label.kind
abbrev field (n : Node) : Option String := n.label.field
abbrev span (n : Node) : Span := n.label.span
abbrev start (n : Node) : Nat := n.span.start
abbrev stop (n : Node) : Nat := n.span.stop
abbrev named (n : Node) : Bool := n.label.named
abbrev extra (n : Node) : Bool := n.label.extra
abbrev error (n : Node) : Bool := n.label.error
abbrev missing (n : Node) : Bool := n.label.missing
abbrev damaged (n : Node) : Bool := n.label.damaged

/-- The node covers no text. -/
abbrev isEmpty (n : Node) : Bool := decide n.span.Empty

/-- The node is a comment or the like. Errors are marked as extra too, but do not count. -/
def isComment (n : Node) : Bool :=
  n.extra && !n.error

/-- Every child is smaller than the node. -/
theorem sizeOf_child {n c : Node} (h : c ∈ n.children) : sizeOf c < sizeOf n := by
  cases n with
  | mk l cs =>
    have := List.sizeOf_lt_of_mem h
    simp only [children, mk.sizeOf_spec] at *
    omega

/-- The first node lies below the second one in its tree. -/
inductive Below : Node → Node → Prop
  | child {c n : Node} : c ∈ n.children → Below c n
  | deeper {d c n : Node} : Below d c → c ∈ n.children → Below d n

theorem Below.trans {a b n : Node} (h : Below a b) (h' : Below b n) : Below a n := by
  induction h' with
  | child hc => exact .deeper h hc
  | deeper _ hc ih => exact .deeper ih hc

theorem Below.sizeOf_lt {d n : Node} (h : Below d n) : sizeOf d < sizeOf n := by
  induction h with
  | child h => exact sizeOf_child h
  | deeper _ h ih => exact Nat.lt_trans ih (sizeOf_child h)

/-! ## Finding nodes -/

/-- The first child in a field. -/
def childInField? (n : Node) (field : String) : Option Node :=
  n.children.find? fun c => c.field == some field

/-- The first named child of a kind. -/
def childOfKind? (n : Node) (kind : String) : Option Node :=
  n.children.find? fun c => c.named && c.kind == kind

/-- The number of named children. -/
def namedCount (n : Node) : Nat :=
  n.children.countP Node.named

/-- The node reached by taking children by number. -/
def at? : Node → List Nat → Option Node
  | n, [] => some n
  | n, i :: path =>
    match n.children[i]? with
    | none => none
    | some c => c.at? path

mutual
/-- The node and all nodes below it, each before its children. -/
def preorder : Node → List Node
  | mk l cs => mk l cs :: preorderAll cs

/-- The nodes of several trees, one tree after the other. -/
def preorderAll : List Node → List Node
  | [] => []
  | c :: cs => c.preorder ++ preorderAll cs
end

mutual
/-- In pre-order come the node and those below it, and no others. -/
theorem mem_preorder_iff {m : Node} : ∀ {n : Node}, m ∈ n.preorder ↔ m = n ∨ Below m n
  | mk l cs => by
    have below : Below m (mk l cs) ↔ ∃ c ∈ cs, m = c ∨ Below m c := by
      constructor
      · intro h
        cases h with
        | child hc => exact ⟨m, hc, .inl rfl⟩
        | deeper h hc => exact ⟨_, hc, .inr h⟩
      · rintro ⟨c, hc, rfl | h⟩
        · exact .child hc
        · exact .deeper h hc
    rw [preorder, List.mem_cons, mem_preorderAll_iff, below]

theorem mem_preorderAll_iff {m : Node} : ∀ {cs : List Node},
    m ∈ preorderAll cs ↔ ∃ c ∈ cs, m = c ∨ Below m c
  | [] => by simp [preorderAll]
  | c :: cs => by simp [preorderAll, mem_preorder_iff, mem_preorderAll_iff]
end

theorem mem_preorder_self (n : Node) : n ∈ n.preorder :=
  mem_preorder_iff.2 (.inl rfl)

theorem Below.mem_preorder {m n : Node} (h : Below m n) : m ∈ n.preorder :=
  mem_preorder_iff.2 (.inr h)

theorem mem_preorder_trans {d m n : Node} (hd : d ∈ m.preorder) (hm : m ∈ n.preorder) :
    d ∈ n.preorder := by
  obtain rfl | hm := mem_preorder_iff.1 hm
  · exact hd
  · obtain rfl | hd := mem_preorder_iff.1 hd
    · exact hm.mem_preorder
    · exact (hd.trans hm).mem_preorder

/-- All nodes of the tree have a property. -/
def All (P : Node → Prop) (n : Node) : Prop :=
  ∀ m ∈ n.preorder, P m

instance (P : Node → Prop) [DecidablePred P] (n : Node) : Decidable (n.All P) :=
  inferInstanceAs (Decidable (∀ m ∈ n.preorder, P m))

section
variable {P : Node → Prop} {n m c : Node}

theorem All.self (h : n.All P) : P n :=
  h n (mem_preorder_self n)

theorem All.of_below (h : n.All P) (hm : Below m n) : m.All P :=
  fun d hd => h d (mem_preorder_trans hd hm.mem_preorder)

theorem All.of_mem (h : n.All P) (hc : c ∈ n.children) : c.All P :=
  h.of_below (.child hc)

end

/-! ## Damage -/

/-- The parser could not make sense of the node, or made it up. -/
def isFault (n : Node) : Bool :=
  n.error || n.missing

mutual
/-- The errors and missing nodes of a tree in pre-order. A node that is not marked as damaged is
not looked into. -/
def faults : Node → List Node
  | mk l cs =>
    if l.damaged then
      if (mk l cs).isFault then mk l cs :: faultsAll cs else faultsAll cs
    else []

/-- The errors and missing nodes of several trees. -/
def faultsAll : List Node → List Node
  | [] => []
  | c :: cs => c.faults ++ faultsAll cs
end

/-- The kind of a node and its span. -/
def text (n : Node) : String :=
  n.kind ++ "@" ++ n.span.text

end Node

end StatementOutline
