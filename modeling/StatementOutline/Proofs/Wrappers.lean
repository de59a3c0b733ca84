import StatementOutline.Proofs.Relocation
import StatementOutline.Proofs.Tearing

/-!
# Wrappers

A label, a decorator or a keyword such as `export` wraps a statement or a block, and wrappers wrap
wrappers. In the outline the outermost wrapper stands for all of them: it has the parts of what the
innermost one wraps, and inside it stands what would stand inside that.

* `WrapsBy`: a wrapper with those inside it, down to what the last one wraps;
* `WrapsBy.partsOf_eq`: the parts of the outermost wrapper;
* `Encounters.mem_blockPieces`: which members of a block become statements as they stand;
* `Forest.Fused`, `Forest.fused_of_wrapsBy`: the one statement that all wrappers come to.
-/

namespace StatementOutline

/-- The body is found in what the statement wraps. -/
def Body.isTarget : Body → Bool
  | target _ => true
  | _ => false

/-- In no language is a wrapper a block. -/
theorem Language.isTarget_of_mem_blocks (l : Language) :
    ∀ kind ∈ l.rules.blocks, (l.rules.body? kind).any Body.isTarget = false := by
  cases l <;> decide +kernel

namespace Rules

open Piece

variable {r : Rules} {l : Language} {w u v m b root : Node} {us before after : List Node}
  {outer : Option Span} {start : Nat} {s : Scope} {x : Record}

/-- The first node wraps the second one. -/
def Wraps (r : Rules) (w v : Node) : Prop :=
  ∃ field, r.body? w.kind = some (.target field) ∧ w.target? field = some v

/-- Each node wraps the next one, from the first by way of some others to the last. -/
inductive WrapsBy (r : Rules) : Node → List Node → Node → Prop
  | last {w v : Node} : r.Wraps w v → WrapsBy r w [] v
  | next {w u v : Node} {us : List Node} : r.Wraps w u → WrapsBy r u us v → WrapsBy r w (u :: us) v

/-! ## Parts of wrappers -/

theorem Wraps.isBlock_eq_false (h : l.rules.Wraps w v) : l.rules.isBlock w.kind = false := by
  obtain ⟨field, hbody, -⟩ := h
  by_contra hblock
  have hmem : w.kind ∈ l.rules.blocks := by simpa [isBlock] using hblock
  have no_target := l.isTarget_of_mem_blocks w.kind hmem
  rw [hbody] at no_target
  cases no_target

theorem WrapsBy.exists_wraps (h : r.WrapsBy w us v) : ∃ u, r.Wraps w u := by
  cases h with
  | last hw => exact ⟨_, hw⟩
  | next hw _ => exact ⟨_, hw⟩

theorem Wraps.mem_preorder (h : r.Wraps w v) : v ∈ w.preorder := by
  obtain ⟨field, -, htarget⟩ := h
  exact (Node.Below.child (Node.mem_children_of_target? htarget)).mem_preorder

theorem Wraps.partsOf_eq (h : r.Wraps w v) :
    r.partsOf w = if r.isBlock v.kind then [.block v] else r.partsOf v := by
  obtain ⟨field, hbody, htarget⟩ := h
  rw [partsOf, hbody]
  simp only [parts_target, htarget, Option.map_some, Option.getD_some]

/-- A wrapper has the parts of what the innermost wrapper wraps, or that as its only part. -/
theorem WrapsBy.partsOf_eq (h : l.rules.WrapsBy w us v) :
    l.rules.partsOf w = if l.rules.isBlock v.kind then [.block v] else l.rules.partsOf v := by
  induction h with
  | last hw => exact hw.partsOf_eq
  | next hw hu ih =>
    obtain ⟨t, ht⟩ := hu.exists_wraps
    rw [hw.partsOf_eq, ht.isBlock_eq_false, if_neg Bool.false_ne_true, ih]

theorem WrapsBy.isCompound_eq (h : l.rules.WrapsBy w us v) :
    l.rules.isCompound w = (l.rules.isBlock v.kind || l.rules.isCompound v) := by
  rw [isCompound, h.partsOf_eq]
  cases hblock : l.rules.isBlock v.kind with
  | true => rfl
  | false => rfl

/-- What is wrapped, as a piece of its own: a block if it can be one. -/
def core (r : Rules) (v : Node) : Piece :=
  if r.isBlock v.kind then .block v else .statement v.start v

/-- The sketches of what is nested in what is wrapped. -/
def held (r : Rules) (v : Node) : List Sketch :=
  r.sketchAll (r.inner (r.core v))

theorem held_of_isBlock (h : r.isBlock v.kind = true) : r.held v = r.sketch (.block v) := by
  rw [held, core, if_pos h, sketch_eq (.block v)]

theorem held_of_not_isBlock (h : r.isBlock v.kind = false) :
    r.held v = r.sketchAll (r.inner (.statement v.start v)) := by
  rw [held, core, if_neg (by simp [h])]

theorem WrapsBy.inner_eq (h : l.rules.WrapsBy w us v) (start : Nat) :
    l.rules.inner (.statement start w) = l.rules.inner (l.rules.core v) := by
  rw [inner, h.isCompound_eq, h.partsOf_eq, core]
  cases hblock : l.rules.isBlock v.kind with
  | true => simp [inner, partPieces]
  | false => simp [inner]

/-- Wrappers lie in one another, and what they wrap lies in all of them. -/
theorem WrapsBy.mem_preorder (h : r.WrapsBy w us v) (hm : m ∈ w :: us ++ [v]) :
    m ∈ w.preorder ∧ v ∈ m.preorder := by
  induction h generalizing m with
  | @last w v hw =>
    obtain rfl | rfl : m = w ∨ m = v := by simpa using hm
    · exact ⟨m.mem_preorder_self, hw.mem_preorder⟩
    · exact ⟨hw.mem_preorder, m.mem_preorder_self⟩
  | @next w u v us hw _ ih =>
    obtain rfl | hm := List.mem_cons.1 hm
    · obtain ⟨-, hv⟩ := ih (List.mem_cons_self ..)
      exact ⟨m.mem_preorder_self, Node.mem_preorder_trans hv hw.mem_preorder⟩
    · obtain ⟨hmu, hvm⟩ := ih hm
      exact ⟨Node.mem_preorder_trans hmu hw.mem_preorder, hvm⟩

/-! ## Meeting a wrapper -/

/-- The walk over the tree comes to the node as a member of the block. No attachments wait in front
of it, it is not taken for the terminator of an error, and the statement around the block has
another span. -/
structure Encounters (r : Rules) (root : Node) (outer : Option Span) (b : Node)
    (before : List Node) (w : Node) (after : List Node) : Prop where
  reads : r.Reads root outer b
  split : b.children = before ++ w :: after
  member : w.isMember = true
  sound : w.error = false
  bare : ∀ run, ¬ r.Waits b before run
  free : ∀ t, ¬ r.Ends b before t w
  distinct : outer ≠ some w.span

/-- Such a member is a piece of its own if it is a statement. -/
theorem Encounters.mem_blockPieces {body : Body} (h : r.Encounters root outer b before w after)
    (hbody : r.body? w.kind = some body) : .statement w.start w ∈ r.blockPieces b := by
  have hrole : r.roleIn b w = .statement body := by
    simp [roleIn, role, h.sound, hbody]
  obtain ⟨ps, run, frag, qs, run', frag', hwalk, htake, hqs⟩ := exists_takes_of_split h.split (r := r)
  cases htake with
  | pass hno => simp [h.member] at hno
  | absorb _ hstatement hterm =>
    exact absurd ⟨hwalk.leavesOpen rfl, h.member, hstatement, hterm⟩ (h.free _)
  | statement =>
    cases run with
    | none => exact hqs _ (List.mem_append_right _ (List.mem_singleton_self _))
    | some run => exact absurd (hwalk.waits rfl).2 (h.bare run)
  | attach _ hother | group _ hother | recover _ hother | skip _ hother => simp [hrole] at hother

/-! ## What is nested in what is wrapped -/

theorem wellPlaced_core (hv : v.WellPlaced) : (r.core v).WellPlaced := by
  unfold core
  split
  · exact hv
  · exact ⟨Nat.le_refl _, hv⟩

theorem span_core (r : Rules) (v : Node) : (r.core v).span = v.span := by
  unfold core
  split <;> rfl

/-- What is nested in what is wrapped lies inside it. -/
theorem row_held (hv : v.WellPlaced) :
    Row v.start v.stop ((r.held v).map Sketch.span) ∧ ∀ k ∈ r.held v, k.WellPlaced := by
  have placed := wellPlaced_core hv (r := r)
  have row := row_inner placed (r := r)
  rw [span_core] at row
  exact row_sketchAll row fun q hq => row_sketch q (wellPlaced_of_mem_inner placed hq)

/-- Records that it adds are those of what is nested in it, and they lie inside it. -/
theorem span_of_mem_addedAll (hv : v.WellPlaced) (hx : x ∈ s.addedAll outer (r.held v)) :
    (∃ y, Sketch.Yields (r.held v) y ∧ y.span = x.span) ∧
      v.start ≤ x.span.start ∧ x.span.stop ≤ v.stop := by
  obtain ⟨o, k, parent, hk, hs⟩ := Forest.exists_occurs_of_mem_addedAll _ hx
  obtain ⟨row, placed⟩ := row_held hv (r := r)
  have inside := hk.inside row placed
  rw [← hs.span_eq] at inside
  exact ⟨⟨_, ⟨o, k, hk, hs⟩, rfl⟩, inside⟩

/-- A statement adds its own record, and behind it what is nested in it. -/
theorem addedAll_statement (start : Nat) (n : Node) (ha : s.Admits ⟨start, n.stop⟩ (r.isCompound n))
    (hne : outer ≠ some ⟨start, n.stop⟩) :
    s.addedAll outer (r.sketch (.statement start n)) =
      ⟨n.kind, ⟨start, n.stop⟩, r.isCompound n, none⟩ ::
        (s.addedAll (some ⟨start, n.stop⟩) (r.sketchAll (r.inner (.statement start n)))).map
          (Record.relocated 1 (some 0)) := by
  cases hc : r.isCompound n with
  | true =>
    rw [hc] at ha
    rw [(Drawn.compound hc).sketch_eq]
    simp only [Scope.addedAll, Scope.added, if_pos ha, if_neg hne, List.map_nil, List.append_nil]
  | false =>
    rw [hc] at ha
    rw [(Drawn.simple hc).sketch_eq]
    simp [Scope.addedAll, Scope.added, ha, hne, inner, hc, sketchAll]

end Rules

namespace Forest

open Rules

variable {l : Language} {w v : Node} {us : List Node}

/-! ## One statement for all wrappers -/

/-- At the position the forest has a statement for a wrapper, and for all that it wraps. -/
structure Fused (f : Forest) (s : Scope) (r : Rules) (outer : Option Span) (w : Node)
    (us : List Node) (v : Node) (i : Nat) : Prop where
  /-- It has the kind and the span of the outermost wrapper. -/
  statement : ∃ e, f.get? i = some e ∧ e.kind = w.kind ∧ e.span = w.span ∧
    e.compound = r.isCompound w ∧ e.parent.bind f.span? = outer
  /-- No other statement has the span of a wrapper or of what is wrapped. -/
  alone : ∀ m ∈ w :: us ++ [v], ∀ j x, f.get? j = some x → x.span = m.span → j = i
  /-- If a block is wrapped, its members stand inside. -/
  block : r.isBlock v.kind = true → ∃ g, ofSketch s (r.sketch (.block v)) = .ok g ∧
    f.inside i = g.records
  /-- If a statement is wrapped, inside stands what would stand inside that one. -/
  wrapped : r.isBlock v.kind = false → ¬ v.span.Empty →
    ∃ g, ofSketch s (r.sketch (.statement v.start v)) = .ok g ∧
      (∃ e, g.get? 0 = some e ∧ e.kind = v.kind ∧ e.span = v.span) ∧ f.inside i = g.inside 0
  empty : v.span.Empty → f.inside i = []

section
variable {root b : Node} {outer : Option Span} {before after : List Node} {n i : Nat}
  {policy : RangePolicy} {f : Forest} {s : Scope} {e : Entry}

/-- What is nested in what is wrapped occurs under the outermost wrapper. -/
theorem occurs_held (h : l.rules.WrapsBy w us v)
    (hreach : l.rules.Reaches root outer (.statement w.start w)) :
    ∀ k ∈ l.rules.held v, Sketch.Occurs (l.rules.sketchRoot root) (some w.span) k := by
  intro k hk
  rw [held, ← h.inner_eq w.start] at hk
  obtain ⟨q, hq, hkq⟩ := mem_sketchAll.1 hk
  exact (Reaches.nested hreach hq).occurs hkq

/-- What is wrapped has no statement of its own: what stands inside lies in what is wrapped, and
nothing there has the same span. -/
theorem alone_of_inside {m : Node} {j : Nat} {x : Entry} (h : l.rules.WrapsBy w us v)
    (hw : w.WellPlaced) (hf : f.Sound) (ho : Record.Preordered f.records)
    (hnested : ∀ y, Sketch.Yields (l.rules.held v) y → y.span ≠ v.span)
    (he : f.get? i = some e) (hspan : e.span = w.span)
    (hinside : f.inside i = s.addedAll (some w.span) (l.rules.held v))
    (hm : m ∈ w :: us ++ [v]) (hx : f.get? j = some x) (hxm : x.span = m.span) : j = i := by
  obtain ⟨hmw, hvm⟩ := h.mem_preorder hm
  obtain ⟨hmp, wm, mw⟩ := hw.of_mem_preorder hmw
  obtain ⟨hvp, mv, vm⟩ := hmp.of_mem_preorder hvm
  have laminar := hf.laminar
  by_cases hsame : x.span = e.span
  · exact laminar.distinct j i x e hx he hsame
  · exfalso
    have within : x.span.StrictlyInside e.span := by
      refine ⟨?_, ?_, hsame⟩
      · rw [hxm, hspan]
        exact wm
      · rw [hxm, hspan]
        exact mw
    have below := (laminar.inside_iff i j e x he hx).1 within
    rw [hf.mem_ancestors_iff] at below
    obtain ⟨y, hy, hyx⟩ := (hf.exists_mem_inside_iff ho he).2
      ⟨j, x.record, records_of_get? hx, below, rfl⟩
    rw [hinside] at hy
    obtain ⟨⟨z, hz, hzy⟩, vy, yv⟩ := span_of_mem_addedAll hvp hy
    have hym : y.span = m.span := hyx.trans hxm
    rw [hym] at vy yv
    refine hnested z hz ?_
    rw [hzy, hym]
    show Span.mk m.start m.stop = ⟨v.start, v.stop⟩
    have starts : m.start = v.start := Nat.le_antisymm mv vy
    have stops : m.stop = v.stop := Nat.le_antisymm yv vm
    rw [starts, stops]

/-- A block that is wrapped can be built by itself, and what stands inside the statement for its
wrappers is all that is built. -/
theorem exists_block_of_inside (hroot : root.WellPlaced) (hv : v.WellPlaced)
    (hf : ofSketch s (l.rules.sketchRoot root) = .ok f)
    (hall : ∀ k ∈ l.rules.held v, Sketch.Occurs (l.rules.sketchRoot root) (some w.span) k)
    (hnested : ∀ y, Sketch.Yields (l.rules.held v) y → y.span ≠ w.span)
    (hinside : f.inside i = s.addedAll (some w.span) (l.rules.held v))
    (hblock : l.rules.isBlock v.kind = true) :
    ∃ g, ofSketch s (l.rules.sketch (.block v)) = .ok g ∧ f.inside i = g.records := by
  obtain ⟨-, placed⟩ := wellPlaced_sketchRoot (r := l.rules) hroot
  obtain ⟨g, hg⟩ := exists_ofSketch_of_occurs hf placed hall (row_held hv).1
  have same : s.addedAll (some w.span) (l.rules.held v) = s.addedAll none (l.rules.held v) :=
    addedAll_congr _ fun y hy => ⟨by simpa [eq_comm] using hnested y hy, by simp⟩
  rw [← held_of_isBlock hblock]
  exact ⟨g, hg, by rw [hinside, same, records_of_ofSketch hg]⟩

/-- A statement that is wrapped can be built by itself. -/
theorem exists_ofSketch_statement (hroot : root.WellPlaced) (hv : v.WellPlaced)
    (hf : ofSketch s (l.rules.sketchRoot root) = .ok f)
    (hall : ∀ k ∈ l.rules.held v, Sketch.Occurs (l.rules.sketchRoot root) outer k)
    (hnested : ∀ y, Sketch.Yields (l.rules.held v) y → y.span ≠ v.span)
    (hblock : l.rules.isBlock v.kind = false) (hsolid : ¬ v.span.Empty) :
    ∃ g, ofSketch s (l.rules.sketch (.statement v.start v)) = .ok g := by
  obtain ⟨-, placed⟩ := wellPlaced_sketchRoot (r := l.rules) hroot
  obtain ⟨-, whole⟩ := row_sketch (r := l.rules) (.statement v.start v) ⟨Nat.le_refl _, hv⟩
  obtain ⟨k, hd⟩ | ⟨m, hm⟩ := drawn_or_block (r := l.rules) (.statement v.start v)
  · have hspan : k.span = v.span := hd.span_eq
    have hbody : k.body = l.rules.held v := hd.body_eq.trans (held_of_not_isBlock hblock).symm
    rw [hd.sketch_eq] at whole ⊢
    apply exists_ofSketch_of_body hf placed (hbody ▸ hall) (whole k (by simp))
    · rw [hd.around_eq, hspan]
      rfl
    · rwa [hspan]
    · intro run hrun
      rw [hbody] at hrun
      rw [hspan]
      exact hnested ⟨run.kind, run.span, false, none⟩ ⟨none, _, hrun, .attachments⟩
  · cases hm

/-- What stands inside the statement for its wrappers is what stands inside it when it is built by
itself. -/
theorem exists_statement_of_inside (hroot : root.WellPlaced) (hv : v.WellPlaced)
    (hadmits : s.Admits v.span (l.rules.isCompound v))
    (hf : ofSketch s (l.rules.sketchRoot root) = .ok f)
    (hall : ∀ k ∈ l.rules.held v, Sketch.Occurs (l.rules.sketchRoot root) (some w.span) k)
    (hnested : ∀ y, Sketch.Yields (l.rules.held v) y → y.span ≠ v.span ∧ y.span ≠ w.span)
    (hinside : f.inside i = s.addedAll (some w.span) (l.rules.held v))
    (hblock : l.rules.isBlock v.kind = false) (hsolid : ¬ v.span.Empty) :
    ∃ g, ofSketch s (l.rules.sketch (.statement v.start v)) = .ok g ∧
      (∃ e, g.get? 0 = some e ∧ e.kind = v.kind ∧ e.span = v.span) ∧ f.inside i = g.inside 0 := by
  obtain ⟨g, hg⟩ := exists_ofSketch_statement hroot hv hf hall (fun y hy => (hnested y hy).1)
    hblock hsolid
  have hadd : s.addedAll none (l.rules.sketch (.statement v.start v)) = _ :=
    addedAll_statement v.start v hadmits (by simp)
  rw [← held_of_not_isBlock hblock] at hadd
  have hrec : g.records[0]? = some ⟨v.kind, v.span, l.rules.isCompound v, none⟩ := by
    rw [records_of_ofSketch hg, hadd]
    rfl
  obtain ⟨e, he, heq⟩ := exists_of_records hrec
  have same : s.addedAll (some w.span) (l.rules.held v) =
      s.addedAll (some v.span) (l.rules.held v) :=
    addedAll_congr _ fun y hy =>
      ⟨by simpa [eq_comm] using (hnested y hy).2, by simpa [eq_comm] using (hnested y hy).1⟩
  refine ⟨g, hg, ⟨e, he, congrArg Record.kind heq, congrArg Record.span heq⟩, ?_⟩
  calc f.inside i = s.addedAll (some v.span) (l.rules.held v) := hinside.trans same
    _ = g.inside 0 := (inside_of_ofSketch hg hadd).symm

/-- Where the walk over a tree meets a wrapper, it and all that it wraps come to one statement. -/
theorem fused_of_encounters {n : Nat} {policy : RangePolicy} (h : l.rules.WrapsBy w us v)
    (hroot : root.WellPlaced) (hstop : root.stop ≤ n)
    (hf : ofSketch ⟨⟨0, n⟩, policy⟩ (l.rules.sketchRoot root) = .ok f)
    (hmet : l.rules.Encounters root outer b before w after)
    (hnested : ∀ y, Sketch.Yields (l.rules.held v) y → y.span ≠ v.span ∧ y.span ≠ w.span) :
    ∃ i, f.Fused ⟨⟨0, n⟩, policy⟩ l.rules outer w us v i := by
  obtain ⟨u, field, hbody, -⟩ := h.exists_wraps
  have hreach := hmet.reads.reaches (hmet.mem_blockPieces hbody)
  obtain ⟨-, hw⟩ := hreach.wellPlaced hroot
  have hstopw : w.stop ≤ n := Nat.le_trans (hreach.stop_le hroot) hstop
  obtain ⟨hvp, -⟩ := h.mem_preorder (m := v) (by simp)
  obtain ⟨hv, -, hvw⟩ := hw.of_mem_preorder hvp
  have hsolid := Node.start_lt_stop_of_isVoid (Node.isVoid_of_isMember hmet.member)
  have admits : ∀ compound, (⟨⟨0, n⟩, policy⟩ : Scope).Admits w.span compound := fun _ =>
    Scope.admits_of_stop_le hsolid hstopw
  have planted := planted_of_reaches hroot hf hreach (admits true).1
  have hadd := addedAll_statement (r := l.rules) w.start w (admits _) hmet.distinct
  rw [h.inner_eq] at hadd
  have sound := sound_of_ofSketch hf
  have preordered := preordered_of_ofSketch hf
  obtain ⟨i, e, he, hkind, hspan, hcompound, hparent, hinside⟩ :=
    planted.exists_inside sound preordered hadd
  have hall := occurs_held h hreach
  refine ⟨i, ⟨e, he, hkind, hspan, hcompound, hparent⟩, ?_, ?_, ?_, ?_⟩
  · intro m hm j x hx hxm
    exact alone_of_inside h hw sound preordered (fun y hy => (hnested y hy).1) he hspan hinside hm hx
      hxm
  · intro hblock
    exact exists_block_of_inside hroot hv hf hall (fun y hy => (hnested y hy).2) hinside hblock
  · intro hblock hfull
    have hadmits : (⟨⟨0, n⟩, policy⟩ : Scope).Admits v.span (l.rules.isCompound v) :=
      Scope.admits_of_stop_le (Nat.lt_of_not_le hfull) (Nat.le_trans hvw hstopw)
    exact exists_statement_of_inside hroot hv hadmits hf hall hnested hinside hblock hfull
  · intro hempty
    rw [List.eq_nil_iff_forall_not_mem]
    intro x hx
    obtain ⟨-, vx, xv⟩ := span_of_mem_addedAll hv (hinside ▸ hx)
    obtain ⟨j, y, hy, -, hyx⟩ := (sound.exists_mem_inside_iff preordered he).1 ⟨x, hx, rfl⟩
    have full : x.span.start < x.span.stop := hyx ▸ sound.fitted.solid hy
    have void : v.stop ≤ v.start := hempty
    omega

/-- Wrappers are fused, to any depth. In every language the outermost one has the parts of what is
wrapped, or that as its only part if it is a block. When a query covers all of the source, there is
one statement for all of them: it has the kind and the span of the outermost wrapper, and inside it
stands what would stand inside what is wrapped. -/
theorem fused_of_wrapsBy (h : l.rules.WrapsBy w us v) :
    (l.rules.partsOf w = if l.rules.isBlock v.kind then [.block v] else l.rules.partsOf v) ∧
    (l.rules.isCompound w = (l.rules.isBlock v.kind || l.rules.isCompound v)) ∧
    ∀ root outer b before after n policy f, root.WellPlaced → root.stop ≤ n →
      ofSketch ⟨⟨0, n⟩, policy⟩ (l.rules.sketchRoot root) = .ok f →
      l.rules.Encounters root outer b before w after →
      (∀ y, Sketch.Yields (l.rules.held v) y → y.span ≠ v.span ∧ y.span ≠ w.span) →
      ∃ i, f.Fused ⟨⟨0, n⟩, policy⟩ l.rules outer w us v i := by
  refine ⟨h.partsOf_eq, h.isCompound_eq, ?_⟩
  intro root outer b before after n policy f hroot hstop hf hmet hnested
  exact fused_of_encounters h hroot hstop hf hmet hnested

end

/-! ## A label behind a label

In the C text `a:b:{{}}` two labels stand in front of a block with a block in it. -/

/-- A statement with a label of one byte in front. -/
def labeled (start : Nat) (inside : Node) : Node :=
  .mk ⟨"labeled_statement", none, ⟨start, inside.stop⟩, true, false, false, false, false⟩ [
    .mk ⟨"statement_identifier", some "label", ⟨start, start + 1⟩, true, false, false, false,
      false⟩ [],
    token ":" (start + 1), inside]

/-- The block behind the labels. -/
def labeledBlock : Node :=
  braces 4 8 [braces 5 7 []]

def innerLabel : Node :=
  labeled 2 labeledBlock

def outerLabel : Node :=
  labeled 0 innerLabel

def labelsRoot : Node :=
  .mk ⟨"translation_unit", none, ⟨0, 8⟩, true, false, false, false, false⟩ [outerLabel]

/-- The forest of that source. -/
def labelsForest : Forest :=
  ⟨#[⟨"labeled_statement", ⟨0, 8⟩, true, none, #[1]⟩,
    ⟨"compound_statement", ⟨5, 7⟩, true, some 0, #[]⟩], #[0]⟩

theorem wrapsBy_labels : Language.c.rules.WrapsBy outerLabel [innerLabel] labeledBlock :=
  .next ⟨none, rfl, rfl⟩ (.last ⟨none, rfl, rfl⟩)

theorem held_labeledBlock : Language.c.rules.held labeledBlock =
    [.compound "compound_statement" ⟨5, 7⟩ []] := by
  have hpieces : Language.c.rules.inner (Language.c.rules.core labeledBlock) =
      [.statement 5 (braces 5 7 [])] := rfl
  have hinner : Language.c.rules.blockPieces (braces 5 7 []) = [] := rfl
  rw [held, hpieces, sketchAll, List.flatMap_singleton, sketch_of_members rfl, hinner]
  rfl

theorem ofSketch_labels :
    ofSketch ⟨⟨0, 8⟩, .intersecting⟩ (Language.c.rules.sketchRoot labelsRoot) =
      .ok labelsForest := by
  have hpieces : Language.c.rules.rootPieces labelsRoot = [.statement 0 outerLabel] := rfl
  have hc : Language.c.rules.isCompound outerLabel = true := by
    rw [wrapsBy_labels.isCompound_eq]
    rfl
  rw [sketchRoot, hpieces, sketchAll, List.flatMap_singleton, (Drawn.compound hc).sketch_eq,
    wrapsBy_labels.inner_eq, ← held, held_labeledBlock]
  rfl

theorem encounters_labels :
    Language.c.rules.Encounters labelsRoot none labelsRoot [] outerLabel [] := by
  refine ⟨.root rfl, rfl, rfl, rfl, ?_, ?_, by simp⟩
  · rintro run ⟨front, cs, hcs, hstrings⟩
    obtain ⟨-, rfl⟩ := List.append_eq_nil_iff.1 hcs.symm
    obtain ⟨a, rest, hnil, -⟩ := hstrings.first
    cases hnil
  · rintro t ⟨⟨front, e, rest, hsplit, -⟩, -⟩
    simp at hsplit

theorem fused_labels : Language.c.rules.WrapsBy outerLabel [innerLabel] labeledBlock ∧
    labelsRoot.WellPlaced ∧
    ofSketch ⟨⟨0, 8⟩, .intersecting⟩ (Language.c.rules.sketchRoot labelsRoot) =
      .ok labelsForest ∧
    Language.c.rules.Encounters labelsRoot none labelsRoot [] outerLabel [] ∧
    (∀ y, Sketch.Yields (Language.c.rules.held labeledBlock) y →
      y.span ≠ labeledBlock.span ∧ y.span ≠ outerLabel.span) ∧
    ∃ i, labelsForest.Fused ⟨⟨0, 8⟩, .intersecting⟩ Language.c.rules none outerLabel [innerLabel]
      labeledBlock i := by
  have placed : labelsRoot.WellPlaced := by decide
  have nested : ∀ y, Sketch.Yields (Language.c.rules.held labeledBlock) y →
      y.span ≠ labeledBlock.span ∧ y.span ≠ outerLabel.span := by
    rintro y ⟨outer, k, hk, hy⟩
    rw [held_labeledBlock] at hk
    obtain ⟨rfl, -⟩ | ⟨o, hk, -⟩ := hk.cases_singleton
    · rw [hy.span_eq]
      decide
    · exact absurd rfl hk.ne_nil
  exact ⟨wrapsBy_labels, placed, ofSketch_labels, encounters_labels, nested,
    (fused_of_wrapsBy wrapsBy_labels).2.2 _ _ _ _ _ _ _ _ placed (Nat.le_refl 8) ofSketch_labels
      encounters_labels nested⟩

end Forest

end StatementOutline
