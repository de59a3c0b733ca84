import StatementOutline.Span

/-!
# Forests of statements

A forest stores statements in the order in which they are added, each under an earlier one or at
the top. A statement is added only if it covers some text, lies strictly inside the one it is put
under, and starts where its preceding sibling has ended; otherwise the forest is left as it was
and the broken rule is reported.
-/

namespace StatementOutline

/-- One statement of a forest. Statements refer to each other by their positions. -/
structure Entry where
  kind : String
  span : Span
  compound : Bool
  parent : Option Nat
  children : Array Nat

structure Forest where
  entries : Array Entry
  /-- The statements at the top. -/
  roots : Array Nat

/-- The rule that a statement would break. -/
inductive Violation
  | emptySpan (kind : String) (span : Span)
  | unknownParent (kind : String) (parent : Nat)
  | notInside (kind : String) (span : Span) (outerKind : String) (outer : Span)
  | overlap (kind : String) (span : Span) (siblingKind : String) (sibling : Span)
deriving DecidableEq

def Violation.message : Violation → String
  | emptySpan kind span => kind ++ " has an empty span " ++ span.text
  | unknownParent kind parent =>
    kind ++ " refers to unknown parent StatementId(" ++ Text.decimal parent ++ ")"
  | notInside kind span outerKind outer =>
    kind ++ " " ++ span.text ++ " is not strictly inside " ++ outerKind ++ " " ++ outer.text
  | overlap kind span siblingKind sibling =>
    kind ++ " " ++ span.text ++ " overlaps preceding sibling " ++ siblingKind ++ " " ++
      sibling.text

namespace Forest

def empty : Forest :=
  ⟨#[], #[]⟩

def size (f : Forest) : Nat :=
  f.entries.size

/-- The statement with a position. -/
def get? (f : Forest) (id : Nat) : Option Entry :=
  f.entries[id]?

/-- The span of the statement with a position. -/
def span? (f : Forest) (id : Nat) : Option Span :=
  (f.get? id).map Entry.span

/-- The statements directly under `parent`, or those at the top. -/
def childrenOf (f : Forest) : Option Nat → Array Nat
  | none => f.roots
  | some id => ((f.get? id).map Entry.children).getD #[]

/-- The rule broken by a statement that covers no text. -/
def emptySpan? (kind : String) (span : Span) : Option Violation :=
  if span.Empty then some (.emptySpan kind span) else none

/-- The rule broken by a statement that is put under another one and does not belong there. -/
def misplaced? (f : Forest) (kind : String) (span : Span) : Option Nat → Option Violation
  | none => none
  | some id =>
    match f.get? id with
    | none => some (.unknownParent kind id)
    | some outer =>
      if span.StrictlyInside outer.span then none
      else some (.notInside kind span outer.kind outer.span)

/-- The rule broken by a statement that starts before the preceding sibling ends. -/
def overlap? (f : Forest) (kind : String) (span : Span) (parent : Option Nat) :
    Option Violation := do
  let id ← (f.childrenOf parent).back?
  let sibling ← f.get? id
  if span.start < sibling.span.stop then some (.overlap kind span sibling.kind sibling.span)
  else none

/-- The first rule that a new statement would break. -/
def violation? (f : Forest) (kind : String) (span : Span) (parent : Option Nat) :
    Option Violation :=
  emptySpan? kind span <|> f.misplaced? kind span parent <|> f.overlap? kind span parent

/-- The forest with a statement at its end and with its position among the children of `parent`. -/
def append (f : Forest) (kind : String) (span : Span) (compound : Bool) (parent : Option Nat) :
    Forest :=
  let id := f.size
  let entries := f.entries.push ⟨kind, span, compound, parent, #[]⟩
  match parent with
  | none => ⟨entries, f.roots.push id⟩
  | some p => ⟨entries.modify p fun e => { e with children := e.children.push id }, f.roots⟩

/-- Adds a statement under `parent`, or at the top. Its position is the size of the forest
before. -/
def push (f : Forest) (kind : String) (span : Span) (compound : Bool) (parent : Option Nat) :
    Except Violation Forest :=
  match f.violation? kind span parent with
  | some v => .error v
  | none => .ok (f.append kind span compound parent)

theorem push_eq_ok_iff {f g : Forest} {kind : String} {span : Span} {compound : Bool}
    {parent : Option Nat} :
    f.push kind span compound parent = .ok g ↔
      f.violation? kind span parent = none ∧ g = f.append kind span compound parent := by
  unfold push
  cases h : f.violation? kind span parent with
  | none => simp [eq_comm]
  | some v => simp

theorem push_eq_error_iff {f : Forest} {kind : String} {span : Span} {compound : Bool}
    {parent : Option Nat} {v : Violation} :
    f.push kind span compound parent = .error v ↔ f.violation? kind span parent = some v := by
  unfold push
  cases f.violation? kind span parent <;> simp

/-- The statements around a statement, innermost first. Statements are stored behind the ones they
are put under, so the test always holds. -/
def ancestors (f : Forest) (id : Nat) : List Nat :=
  match (f.get? id).bind Entry.parent with
  | none => []
  | some p => if p < id then p :: f.ancestors p else []
termination_by id

/-- The number of statements around a statement. -/
def depth (f : Forest) (id : Nat) : Nat :=
  (f.ancestors id).length

/-- The statements inside a statement: those behind it, as far as they start before its end. -/
def descendants (f : Forest) (id : Nat) : List Nat :=
  match f.get? id with
  | none => []
  | some e =>
    (List.range' (id + 1) (f.size - (id + 1))).takeWhile fun d =>
      (f.span? d).any fun s => decide (s.start < e.span.stop)

end Forest

end StatementOutline
