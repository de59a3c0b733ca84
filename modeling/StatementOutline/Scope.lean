import StatementOutline.Forest
import StatementOutline.Settings
import StatementOutline.Sketch

/-!
# Scopes

A scope is a query with the policy by which it selects. Planting a sketch in a scope adds to a
forest the statements that the scope admits, each under the innermost one around it. A statement
whose span is that of the one it would be put under is merged into it: only the statements nested in
it are planted.
-/

namespace StatementOutline

structure Scope where
  query : Span
  policy : RangePolicy

/-- The scope admits a statement: the query meets it and, where only what is contained counts, the
query covers it or it is compound. -/
def Scope.Admits (s : Scope) (span : Span) (compound : Bool) : Prop :=
  s.query.Meets span ∧ (s.policy = .contained → compound = true ∨ s.query.Covers span)

instance (s : Scope) (span : Span) (compound : Bool) : Decidable (s.Admits span compound) :=
  inferInstanceAs (Decidable (s.query.Meets span ∧
    (s.policy = .contained → compound = true ∨ s.query.Covers span)))

namespace Forest

/-- The kind under which the text of an error is stored. -/
def errorKind : String := "ERROR"

/-- Whether a statement would be put under one with the same span. -/
def merges (f : Forest) (span : Span) (parent : Option Nat) : Bool :=
  decide (parent.bind f.span? = some span)

/-- Plants a statement without nested statements. -/
def plantSimple (f : Forest) (s : Scope) (parent : Option Nat) (kind : String) (span : Span) :
    Except Violation Forest :=
  if s.Admits span false ∧ ¬ f.merges span parent then f.push kind span false parent else .ok f

/-- Plants attachments that stand alone. They are never merged. -/
def plantRun (f : Forest) (s : Scope) (parent : Option Nat) (run : Run) :
    Except Violation Forest :=
  if s.Admits run.span false then f.push run.kind run.span false parent else .ok f

mutual
/-- Plants a sketch under `parent`, or at the top. -/
def plant (s : Scope) (parent : Option Nat) : Sketch → Forest → Except Violation Forest
  | .simple kind span, f => f.plantSimple s parent kind span
  | .fragment span, f => f.plantSimple s parent errorKind span
  | .attachments run, f => f.plantRun s parent run
  | .group span body, f => if s.query.Meets span then plantAll s parent body f else .ok f
  | .compound kind span body, f =>
    if s.Admits span true then
      if f.merges span parent then plantAll s parent body f
      else
        match f.push kind span true parent with
        | .error v => .error v
        | .ok g => plantAll s (some f.size) body g
    else .ok f

/-- Plants several sketches, one after the other. -/
def plantAll (s : Scope) (parent : Option Nat) : List Sketch → Forest → Except Violation Forest
  | [], f => .ok f
  | k :: ks, f =>
    match plant s parent k f with
    | .error v => .error v
    | .ok g => plantAll s parent ks g
end

/-- The forest of the statements of a sketch that a scope admits. -/
def ofSketch (s : Scope) (ks : List Sketch) : Except Violation Forest :=
  plantAll s none ks empty

end Forest

end StatementOutline
