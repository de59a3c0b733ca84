import StatementOutline.Text.Numeral

/-!
# Spans

A span is a half-open run of offsets. A query is a span too; an empty query is a point, which
meets the spans that own it: those that start at or before it and stop behind it.
-/

namespace StatementOutline

structure Span where
  start : Nat
  stop : Nat
deriving DecidableEq

namespace Span

/-- The span covers no offset. -/
def Empty (s : Span) : Prop :=
  s.stop ≤ s.start

/-- The span lies inside another one and differs from it. -/
def StrictlyInside (s outer : Span) : Prop :=
  outer.start ≤ s.start ∧ s.stop ≤ outer.stop ∧ s ≠ outer

/-- The offset is one of those that the span covers. -/
def Owns (s : Span) (offset : Nat) : Prop :=
  s.start ≤ offset ∧ offset < s.stop

/-- The query has an offset in common with the span, or is a point that the span owns. -/
def Meets (query s : Span) : Prop :=
  if query.stop ≤ query.start then s.Owns query.start
  else s.start < query.stop ∧ query.start < s.stop

/-- The span lies inside the query, which is not a point. -/
def Covers (query s : Span) : Prop :=
  query.start < query.stop ∧ query.start ≤ s.start ∧ s.stop ≤ query.stop

instance (s : Span) : Decidable s.Empty :=
  inferInstanceAs (Decidable (s.stop ≤ s.start))

instance (s outer : Span) : Decidable (s.StrictlyInside outer) :=
  inferInstanceAs (Decidable (outer.start ≤ s.start ∧ s.stop ≤ outer.stop ∧ s ≠ outer))

instance (s : Span) (offset : Nat) : Decidable (s.Owns offset) :=
  inferInstanceAs (Decidable (s.start ≤ offset ∧ offset < s.stop))

instance (query s : Span) : Decidable (query.Meets s) :=
  inferInstanceAs (Decidable (if query.stop ≤ query.start then s.Owns query.start
    else s.start < query.stop ∧ query.start < s.stop))

instance (query s : Span) : Decidable (query.Covers s) :=
  inferInstanceAs (Decidable (query.start < query.stop ∧ query.start ≤ s.start ∧
    s.stop ≤ query.stop))

/-- The ends of the span, with two dots between them. -/
def text (s : Span) : String :=
  Text.decimal s.start ++ ".." ++ Text.decimal s.stop

/-- A query that meets a span meets all spans around it. -/
theorem Meets.mono {query s t : Span} (h : query.Meets s) (hstart : t.start ≤ s.start)
    (hstop : s.stop ≤ t.stop) : query.Meets t := by
  unfold Meets Owns at *
  by_cases hq : query.stop ≤ query.start
  · rw [if_pos hq] at h ⊢
    omega
  · rw [if_neg hq] at h ⊢
    omega

/-- A span without text is met only from both sides. -/
theorem Meets.covers {query s : Span} (h : query.Meets s) (hs : s.Empty) : query.Covers s := by
  unfold Meets Owns at h
  unfold Empty at hs
  unfold Covers
  split at h <;> omega

theorem Covers.meets {query s : Span} (h : query.Covers s) (hs : ¬ s.Empty) : query.Meets s := by
  unfold Covers at h
  unfold Empty at hs
  unfold Meets Owns
  split <;> omega

end Span

end StatementOutline
