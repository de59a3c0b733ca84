import StatementOutline.Proofs.Layout

/-!
# Which pieces are reached

The walk over a tree starts with the pieces of the root and goes on with those nested in each piece.
Only statements come to stand around others: what is seen through and what is recovered from errors
hands on what is around it.

* `Reaches.inlineBody_of_isVoid`: void nodes are passed over, but not where they stand in place of a
  block;
* `occurs_iff_reaches`: a sketch draws the pieces that are reached, and nothing else.
-/

namespace StatementOutline

/-- The span around what is nested in the piece, given the span around the piece. -/
def Piece.around (outer : Option Span) : Piece → Option Span
  | statement start n => some ⟨start, n.stop⟩
  | fragment _ | attachments _ | group _ | block _ => outer

/-- All nodes of the tree that the piece stands for have a property. -/
def Piece.All (P : Node → Prop) (p : Piece) : Prop :=
  ∀ n, p.node? = some n → n.All P

namespace Rules

variable {r : Rules} {root n m : Node} {outer : Option Span} {p q : Piece} {k : Sketch}
  {P : Node → Prop}

theorem below_of_mem_rootPieces (hn : q.node? = some n) (hq : q ∈ r.rootPieces root) :
    Node.Below n root := by
  unfold rootPieces at hq
  split at hq
  · exact below_of_mem_regionPieces hn hq
  · exact below_of_mem_blockPieces hn hq

theorem all_of_mem_rootPieces (h : root.All P) (hq : q ∈ r.rootPieces root) : q.All P :=
  fun _ hm => h.of_below (below_of_mem_rootPieces hm hq)

theorem all_of_mem_inner (h : p.All P) (hq : q ∈ r.inner p) : q.All P := by
  intro m hm
  cases hp : p.node? with
  | none => cases p <;> simp_all [Piece.node?, inner]
  | some n => exact (h n hp).of_below (below_of_mem_inner hp hm hq)

/-- The walk over the tree comes to the piece, and the innermost statement around it has the
span. -/
inductive Reaches (r : Rules) (root : Node) : Option Span → Piece → Prop
  | top {p : Piece} : p ∈ r.rootPieces root → Reaches r root none p
  | nested {outer : Option Span} {p q : Piece} : Reaches r root outer p → q ∈ r.inner p →
      Reaches r root (p.around outer) q

/-- The node stands in place of a block in a compound statement that the walk comes to. -/
def InlineBody (r : Rules) (root n : Node) : Prop :=
  ∃ outer start m, r.Reaches root outer (.statement start m) ∧ r.isCompound m = true ∧
    .inline n ∈ r.partsOf m

theorem Reaches.wellPlaced (h : r.Reaches root outer p) (hroot : root.WellPlaced) :
    p.WellPlaced := by
  induction h with
  | top hp => exact wellPlaced_of_mem_rootPieces hroot hp
  | nested _ hq ih => exact wellPlaced_of_mem_inner ih hq

/-- The pieces end inside the root. -/
theorem Reaches.stop_le (h : r.Reaches root outer p) (hroot : root.WellPlaced) :
    p.span.stop ≤ root.stop := by
  induction h with
  | top hp => exact ((row_rootPieces hroot).of_mem (List.mem_map_of_mem hp)).2.2
  | nested hp hq ih =>
    have inside := (row_inner (hp.wellPlaced hroot)).of_mem (List.mem_map_of_mem hq)
    exact Nat.le_trans inside.2.2 ih

/-- What all nodes of a tree have in common the nodes of the pieces have, too. -/
theorem Reaches.all (h : r.Reaches root outer p) (hroot : root.All P) : p.All P := by
  induction h with
  | top hp => exact all_of_mem_rootPieces hroot hp
  | nested _ hq ih => exact all_of_mem_inner ih hq

/-- The nodes of the pieces lie below the root. -/
theorem Reaches.node_below (h : r.Reaches root outer p) (hn : p.node? = some n) :
    Node.Below n root := by
  induction h generalizing n with
  | top hp => exact below_of_mem_rootPieces hn hp
  | @nested outer p q _ hq ih =>
    cases hp : p.node? with
    | none => cases p <;> simp_all [Piece.node?, inner]
    | some m => exact (below_of_mem_inner hp hn hq).trans (ih hp)

/-! ## Void nodes -/

theorem isVoid_of_mem_blockPieces (hn : q.node? = some n) (h : q ∈ r.blockPieces m) :
    n.isVoid = false := by
  obtain ⟨c, -, ⟨rfl, hm⟩ | hs⟩ := member_or_shard_of_mem_members hn h
  · exact Node.isVoid_of_isMember hm
  · exact Node.isVoid_of_mem_shards hs

theorem isVoid_of_mem_regionPieces (hn : q.node? = some n) (h : q ∈ r.regionPieces m) :
    n.isVoid = false := by
  obtain h | h := List.mem_append.1 h
  · exact Node.isVoid_of_mem_shards (mem_of_mem_cut hn h)
  · simp [Piece.node?_of_mem_ofFragment h] at hn

theorem isVoid_of_mem_rootPieces (hn : q.node? = some n) (h : q ∈ r.rootPieces root) :
    n.isVoid = false := by
  unfold rootPieces at h
  split at h
  · exact isVoid_of_mem_regionPieces hn h
  · exact isVoid_of_mem_blockPieces hn h

/-- A statement that stands in place of a block is reached without anything in front of it. -/
theorem InlineBody.reaches (h : r.InlineBody root n) :
    ∃ outer, r.Reaches root outer (.statement n.start n) := by
  obtain ⟨outer, start, m, hm, hc, hpart⟩ := h
  refine ⟨_, .nested hm ?_⟩
  rw [inner, if_pos hc]
  exact List.mem_flatMap.2 ⟨.inline n, hpart, List.mem_singleton_self _⟩

/-- A void node that is reached all the same stands in place of a block. -/
theorem Reaches.inlineBody_of_isVoid {start : Nat} (h : r.Reaches root outer (.statement start n))
    (hv : n.isVoid = true) : start = n.start ∧ r.InlineBody root n := by
  have not_void : n.isVoid ≠ false := by simp [hv]
  cases h with
  | top hp => exact absurd (isVoid_of_mem_rootPieces rfl hp) not_void
  | @nested outer p _ hp hq =>
    cases p with
    | statement start' m =>
      simp only [inner] at hq
      split at hq
      · next hc =>
        obtain ⟨part, hpart, hq⟩ := List.mem_flatMap.1 hq
        cases part with
        | block b => exact absurd (isVoid_of_mem_blockPieces rfl hq) not_void
        | inline s =>
          cases List.mem_singleton.1 hq
          exact ⟨rfl, outer, start', m, hp, hc, hpart⟩
        | recovered e => exact absurd (isVoid_of_mem_regionPieces rfl hq) not_void
      · simp at hq
    | group b | block b => exact absurd (isVoid_of_mem_blockPieces rfl hq) not_void
    | fragment | attachments => simp [inner] at hq

/-- A statement that covers no text even with its attachments covers none without them. -/
theorem Reaches.inlineBody_of_empty {start : Nat} (h : r.Reaches root outer (.statement start n))
    (hroot : root.WellPlaced) (he : Span.Empty ⟨start, n.stop⟩) :
    start = n.start ∧ r.InlineBody root n := by
  obtain ⟨hstart, -⟩ := h.wellPlaced hroot
  have hn : n.isEmpty = true := decide_eq_true (Nat.le_trans he hstart)
  exact h.inlineBody_of_isVoid (by simp [Node.isVoid, hn])

end Rules

/-! ## What a sketch draws -/

namespace Sketch

/-- The span around what the sketch holds, given the span around the sketch. -/
def around (outer : Option Span) : Sketch → Option Span
  | simple _ s | compound _ s _ => some s
  | fragment _ | attachments _ | group _ _ => outer

/-- What the sketch holds. -/
def body : Sketch → List Sketch
  | compound _ _ body | group _ body => body
  | simple _ _ | fragment _ | attachments _ => []

/-- The sketch is one that may hold others. -/
def isOpen : Sketch → Bool
  | compound _ _ _ | group _ _ => true
  | simple _ _ | fragment _ | attachments _ => false

/-- The sketch is found among several or in one of them, and the innermost statement around it has
the span. -/
inductive Occurs (ks : List Sketch) : Option Span → Sketch → Prop
  | top {k : Sketch} : k ∈ ks → Occurs ks none k
  | nested {outer : Option Span} {k l : Sketch} : Occurs ks outer k → l ∈ k.body →
      Occurs ks (k.around outer) l

variable {ks : List Sketch} {outer : Option Span} {k l : Sketch}

theorem isOpen_of_mem_body (h : l ∈ k.body) : k.isOpen = true := by
  cases k with
  | compound | group => rfl
  | simple | fragment | attachments => simp [body] at h

theorem WellPlaced.of_mem_body (h : k.WellPlaced) (hl : l ∈ k.body) :
    l.WellPlaced ∧ k.span.start ≤ l.span.start ∧ l.span.stop ≤ k.span.stop := by
  cases k with
  | compound kind s body | group s body =>
    rw [WellPlaced, allWellPlaced_iff] at h
    obtain ⟨a, -, b⟩ := h.1.of_mem (List.mem_map_of_mem hl)
    exact ⟨h.2 l hl, a, b⟩
  | simple | fragment | attachments => simp [body] at hl

theorem Occurs.wellPlaced (h : Occurs ks outer k) (hks : ∀ k ∈ ks, k.WellPlaced) :
    k.WellPlaced := by
  induction h with
  | top hk => exact hks _ hk
  | nested _ hl ih => exact (ih.of_mem_body hl).1

end Sketch

namespace Rules

variable {r : Rules} {root n : Node} {outer : Option Span} {p q : Piece} {k : Sketch}

/-- The sketch of a piece that is more than what is nested in it. -/
inductive Drawn (r : Rules) : Piece → Sketch → Prop
  | simple {start : Nat} {n : Node} : r.isCompound n = false →
      Drawn r (.statement start n) (.simple n.kind ⟨start, n.stop⟩)
  | compound {start : Nat} {n : Node} : r.isCompound n = true →
      Drawn r (.statement start n)
        (.compound n.kind ⟨start, n.stop⟩ (r.sketchAll (r.inner (.statement start n))))
  | fragment {s : Span} : Drawn r (.fragment s) (.fragment s)
  | attachments {run : Run} : Drawn r (.attachments run) (.attachments run)
  | group {n : Node} : Drawn r (.group n) (.group n.span (r.sketchAll (r.inner (.group n))))

theorem drawn_or_block (p : Piece) : (∃ k, r.Drawn p k) ∨ ∃ n, p = .block n := by
  cases p with
  | statement start n =>
    cases hc : r.isCompound n with
    | false => exact .inl ⟨_, .simple hc⟩
    | true => exact .inl ⟨_, .compound hc⟩
  | fragment => exact .inl ⟨_, .fragment⟩
  | attachments => exact .inl ⟨_, .attachments⟩
  | group => exact .inl ⟨_, .group⟩
  | block n => exact .inr ⟨n, rfl⟩

theorem Drawn.sketch_eq (h : r.Drawn p k) : r.sketch p = [k] := by
  rw [Rules.sketch_eq]
  cases h with
  | simple hc => simp [hc]
  | compound hc => simp [hc]
  | fragment | attachments | group => rfl

theorem Drawn.around_eq (h : r.Drawn p k) : k.around outer = p.around outer := by
  cases h <;> rfl

theorem Drawn.body_eq (h : r.Drawn p k) : k.body = r.sketchAll (r.inner p) := by
  cases h with
  | simple hc => simp [Sketch.body, inner, hc, sketchAll]
  | compound | fragment | attachments | group => rfl

theorem mem_sketchAll {ps : List Piece} : k ∈ r.sketchAll ps ↔ ∃ p ∈ ps, k ∈ r.sketch p :=
  List.mem_flatMap

/-- What the sketch of a reached piece consists of is drawn from reached pieces. -/
theorem Reaches.exists_drawn (h : r.Reaches root outer p) (hk : k ∈ r.sketch p) :
    ∃ q, r.Reaches root outer q ∧ r.Drawn q k := by
  induction p using piece_induction (r := r) with
  | step p ih =>
    obtain ⟨l, hl⟩ | ⟨n, rfl⟩ := drawn_or_block (r := r) p
    · rw [hl.sketch_eq] at hk
      obtain rfl := List.mem_singleton.1 hk
      exact ⟨p, h, hl⟩
    · rw [sketch_eq] at hk
      obtain ⟨q, hq, hkq⟩ := mem_sketchAll.1 hk
      exact ih q hq (.nested h hq) hkq

/-- The sketch of a reached piece occurs where the piece is reached. -/
theorem Reaches.occurs (h : r.Reaches root outer p) (hk : k ∈ r.sketch p) :
    Sketch.Occurs (r.sketchRoot root) outer k := by
  induction h generalizing k with
  | top hp => exact .top (mem_sketchAll.2 ⟨_, hp, hk⟩)
  | @nested outer p q hp hq ih =>
    have hk' : k ∈ r.sketchAll (r.inner p) := mem_sketchAll.2 ⟨q, hq, hk⟩
    obtain ⟨l, hl⟩ | ⟨n, rfl⟩ := drawn_or_block (r := r) p
    · rw [← hl.around_eq]
      exact .nested (ih (by simp [hl.sketch_eq])) (hl.body_eq ▸ hk')
    · exact ih (by rwa [sketch_eq])

/-- What occurs in the sketch of a tree is what is drawn from the pieces that are reached. -/
theorem occurs_iff_reaches : Sketch.Occurs (r.sketchRoot root) outer k ↔
    ∃ p, r.Reaches root outer p ∧ r.Drawn p k := by
  constructor
  · intro h
    induction h with
    | top hk =>
      obtain ⟨p, hp, hkp⟩ := mem_sketchAll.1 hk
      exact (Reaches.top hp).exists_drawn hkp
    | nested _ hl ih =>
      obtain ⟨p, hp, hd⟩ := ih
      rw [hd.body_eq] at hl
      obtain ⟨q, hq, hlq⟩ := mem_sketchAll.1 hl
      rw [hd.around_eq]
      exact (Reaches.nested hp hq).exists_drawn hlq
  · rintro ⟨p, hp, hd⟩
    exact hp.occurs (by simp [hd.sketch_eq])

end Rules

end StatementOutline
