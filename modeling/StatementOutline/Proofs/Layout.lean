import StatementOutline.Proofs.Placement
import StatementOutline.Sketch

/-!
# Where pieces and sketches lie

In a well placed tree the pieces of a block follow one another inside it: attachments that wait for
a statement and fragments that wait for a terminator lie in front of all children still to come.

* `laid_members`, `laid_cut`: the pieces of a block and of an error, with what is open in front;
* `row_inner`: the pieces nested in a piece lie inside it;
* `wellPlaced_sketchRoot`: a sketch lies inside its tree, and what it holds lies inside it.
-/

namespace StatementOutline

namespace Piece

/-- The text that the piece stands for, attachments included. -/
def span : Piece → Span
  | statement start n => ⟨start, n.stop⟩
  | fragment s => s
  | attachments run => run.span
  | group n | block n => n.span

/-- The piece covers some text, and a statement starts no earlier than its attachments. -/
def Solid : Piece → Prop
  | statement start n => start ≤ n.start ∧ n.start < n.stop
  | fragment s => s.start < s.stop
  | attachments run => run.span.start < run.span.stop
  | group n | block n => n.start < n.stop

theorem Solid.start_lt_stop {p : Piece} (h : p.Solid) : p.span.start < p.span.stop := by
  cases p with
  | statement start n => exact Nat.lt_of_le_of_lt h.1 h.2
  | fragment | attachments | group | block => exact h

/-- The pieces follow one another from the first offset to the second, and each covers some text. -/
structure Laid (lo hi : Nat) (ps : List Piece) : Prop where
  row : Row lo hi (ps.map span)
  solid : ∀ p ∈ ps, p.Solid

variable {lo lo' mid hi hi' : Nat} {p : Piece} {ps qs : List Piece}

theorem laid_nil (h : lo ≤ hi) : Laid lo hi [] :=
  ⟨h, by simp⟩

theorem laid_cons (hlo : lo ≤ p.span.start) (hp : p.Solid) (h : Laid p.span.stop hi ps) :
    Laid lo hi (p :: ps) := by
  refine ⟨⟨hlo, Nat.le_of_lt hp.start_lt_stop, h.row⟩, ?_⟩
  intro q hq
  obtain rfl | hq := List.mem_cons.1 hq
  · exact hp
  · exact h.solid q hq

theorem Laid.append (h : Laid lo mid ps) (h' : Laid mid hi qs) : Laid lo hi (ps ++ qs) := by
  refine ⟨by rw [List.map_append]; exact h.row.append h'.row, ?_⟩
  intro q hq
  obtain hq | hq := List.mem_append.1 hq
  · exact h.solid q hq
  · exact h'.solid q hq

theorem Laid.exists_of_append (h : Laid lo hi (ps ++ qs)) :
    ∃ mid, Laid lo mid ps ∧ Laid mid hi qs := by
  obtain ⟨mid, hp, hq⟩ := Row.exists_of_append (by simpa using h.row)
  have front : ∀ p ∈ ps, p.Solid := fun p hp => h.solid p (List.mem_append_left _ hp)
  have back : ∀ q ∈ qs, q.Solid := fun q hq => h.solid q (List.mem_append_right _ hq)
  exact ⟨mid, ⟨hp, front⟩, ⟨hq, back⟩⟩

/-- Two pieces of a row have no text in common. -/
theorem Laid.apart {q : Piece} (h : Laid lo hi ps) (hp : p ∈ ps) (hq : q ∈ ps) (hne : p ≠ q) :
    p.span.stop ≤ q.span.start ∨ q.span.stop ≤ p.span.start := by
  obtain ⟨front, back, rfl⟩ := List.append_of_mem hp
  obtain ⟨mid, hfront, hpback⟩ := h.exists_of_append
  obtain ⟨hmid, -, hback⟩ := hpback.row
  rcases List.mem_append.1 hq with hq | hq
  · have := (hfront.row.of_mem (List.mem_map_of_mem hq)).2.2
    exact .inr (Nat.le_trans this hmid)
  · rcases List.mem_cons.1 hq with rfl | hq
    · exact absurd rfl hne
    · exact .inl (hback.of_mem (List.mem_map_of_mem hq)).1

theorem Laid.widen (h : Laid lo hi ps) (hlo : lo' ≤ lo) (hhi : hi ≤ hi') : Laid lo' hi' ps :=
  ⟨h.row.widen hlo hhi, h.solid⟩

/-- An open fragment goes on over the next node. -/
theorem laid_joinFragment {frag : Option Span} {n : Node} (h : Laid lo mid (ofFragment frag))
    (hn : mid ≤ n.start) (solid : n.start < n.stop) :
    Laid lo n.stop (ofFragment (some (joinFragment frag n))) := by
  have hle := h.row.le
  cases frag with
  | none => exact laid_cons (Nat.le_trans hle hn) solid (laid_nil (Nat.le_refl _))
  | some s =>
    obtain ⟨a, -, b⟩ := h.row
    have hs : s.start < s.stop := h.solid (.fragment s) (by simp [ofFragment])
    have hb : s.stop ≤ mid := b
    refine laid_cons a ?_ (laid_nil (Nat.le_refl _))
    show s.start < n.stop
    omega

/-- Open attachments go on over the next one. -/
theorem laid_joinRun {run : Option Run} {n : Node} (h : Laid lo mid (ofRun run))
    (hn : mid ≤ n.start) (solid : n.start < n.stop) :
    Laid lo n.stop (ofRun (some (joinRun run n))) := by
  have hle := h.row.le
  cases run with
  | none => exact laid_cons (Nat.le_trans hle hn) solid (laid_nil (Nat.le_refl _))
  | some r =>
    obtain ⟨a, -, b⟩ := h.row
    have hr : r.span.start < r.span.stop := h.solid (.attachments r) (by simp [ofRun])
    have hb : r.span.stop ≤ mid := b
    refine laid_cons a ?_ (laid_nil (Nat.le_refl _))
    show r.span.start < n.stop
    omega

/-- A statement starts where its attachments start. -/
theorem laid_startAfter {run : Option Run} {n : Node} (h : Laid lo mid (ofRun run))
    (hn : mid ≤ n.start) (solid : n.start < n.stop) (hps : Laid n.stop hi ps) :
    Laid lo hi (.statement (startAfter run n) n :: ps) := by
  have hle := h.row.le
  cases run with
  | none => exact laid_cons (Nat.le_trans hle hn) ⟨Nat.le_refl _, solid⟩ hps
  | some r =>
    obtain ⟨a, b, c⟩ := h.row
    have hb : r.span.start ≤ r.span.stop := b
    have hc : r.span.stop ≤ mid := c
    refine laid_cons a ⟨?_, solid⟩ hps
    show r.span.start ≤ n.start
    omega

end Piece

namespace Node

/-- Only void nodes cover no text. -/
theorem start_lt_stop_of_isVoid {n : Node} (h : n.isVoid = false) : n.start < n.stop := by
  simp only [isVoid, Bool.or_eq_false_iff] at h
  exact Nat.lt_of_not_le (of_decide_eq_false h.1.2)

theorem isVoid_of_isMember {n : Node} (h : n.isMember = true) : n.isVoid = false := by
  simp only [isMember, isSolid, Bool.and_eq_true, Bool.not_eq_true'] at h
  simp [isVoid, h]

mutual
/-- The shards of an error follow one another inside it. -/
theorem row_shards : ∀ {n : Node}, n.WellPlaced → Row n.start n.stop (n.shards.map Node.span)
  | .mk l cs, h => by
    rw [shards]
    exact row_shardsAll h.row fun c hc => h.of_mem hc

theorem row_shardsAll : ∀ {cs : List Node} {lo hi : Nat}, Row lo hi (cs.map Node.span) →
    (∀ c ∈ cs, c.WellPlaced) → Row lo hi ((shardsAll cs).map Node.span)
  | [], lo, hi, h, _ => by
    rw [shardsAll]
    exact h
  | c :: cs, lo, hi, ⟨a, b, h⟩, hw => by
    unfold shardsAll
    rw [List.map_append]
    have first : Row lo c.stop
        ((if c.isVoid then [] else if c.error then c.shards else [c]).map Node.span) := by
      split
      · exact Nat.le_trans a b
      · split
        · exact (row_shards (hw c (by simp))).widen a (Nat.le_refl _)
        · exact ⟨a, b, Nat.le_refl _⟩
    exact first.append (row_shardsAll h fun d hd => hw d (by simp [hd]))
end

mutual
/-- Shards are no void nodes. -/
theorem isVoid_of_mem_shards {s : Node} : ∀ {n : Node}, s ∈ n.shards → s.isVoid = false
  | .mk l cs, h => by
    rw [shards] at h
    exact isVoid_of_mem_shardsAll h

theorem isVoid_of_mem_shardsAll {s : Node} : ∀ {cs : List Node}, s ∈ shardsAll cs →
    s.isVoid = false
  | [], h => by simp [shardsAll] at h
  | c :: cs, h => by
    unfold shardsAll at h
    obtain h | h := List.mem_append.1 h
    · split at h
      · simp at h
      · next hv =>
        split at h
        · exact isVoid_of_mem_shards h
        · obtain rfl := List.mem_singleton.1 h
          simpa using hv
    · exact isVoid_of_mem_shardsAll h
end

end Node

namespace Rules

open Piece

variable {r : Rules} {lo lo' hi : Nat} {p q : Piece} {n : Node}

/-- The pieces of an error and the fragment that is open at its end, given the one that is open in
front of it. -/
theorem laid_cut {frag : Option Span} {ss : List Node} (h : Row lo hi (ss.map Node.span))
    (solid : ∀ s ∈ ss, s.start < s.stop) (hfrag : Laid lo' lo (ofFragment frag)) :
    Laid lo' hi ((r.cut frag ss).1 ++ ofFragment (r.cut frag ss).2) := by
  fun_induction cut r frag ss generalizing lo lo' with
  | case1 frag => exact hfrag.widen (Nat.le_refl _) h
  | case2 frag s rest _ ps last hcut ih =>
    obtain ⟨a, b, h⟩ := h
    have hs := solid s (by simp)
    have later := ih h (fun t ht => solid t (by simp [ht])) (laid_nil (Nat.le_refl _))
    rw [hcut] at later
    rw [List.append_assoc]
    exact hfrag.append (laid_cons a ⟨Nat.le_refl _, hs⟩ later)
  | case3 frag s rest _ _ ps last hcut ih =>
    obtain ⟨a, b, h⟩ := h
    have hs := solid s (by simp)
    have later := ih h (fun t ht => solid t (by simp [ht])) (laid_nil (Nat.le_refl _))
    rw [hcut] at later
    rw [List.append_assoc]
    exact hfrag.append (laid_cons a hs later)
  | case4 frag s rest _ _ ih =>
    obtain ⟨a, b, h⟩ := h
    have hs := solid s (by simp)
    exact ih h (fun t ht => solid t (by simp [ht])) (laid_joinFragment hfrag a hs)

theorem laid_cut_shards (h : n.WellPlaced) :
    Laid n.start n.stop ((r.cut none n.shards).1 ++ ofFragment (r.cut none n.shards).2) :=
  laid_cut (Node.row_shards h)
    (fun _ hs => Node.start_lt_stop_of_isVoid (Node.isVoid_of_mem_shards hs))
    (laid_nil (Nat.le_refl _))

/-- The pieces that children fall into, given what is open in front of them. While a fragment is
open no attachments are. -/
theorem laid_members {container : Bool} {run : Option Run} {frag : Option Span} {cs : List Node}
    (h : Row lo hi (cs.map Node.span)) (hw : ∀ c ∈ cs, c.WellPlaced)
    (hopen : Laid lo' lo (ofFragment frag ++ ofRun run)) (one : frag.isSome → run = none) :
    Laid lo' hi (r.members container run frag cs) := by
  induction cs generalizing run frag lo lo' with
  | nil => exact hopen.widen (Nat.le_refl _) h
  | cons c cs ih =>
    obtain ⟨a, b, h⟩ := h
    have hc : c.WellPlaced := hw c (by simp)
    have later : ∀ {run frag lo'}, Laid lo' c.stop (ofFragment frag ++ ofRun run) →
        (frag.isSome → run = none) → Laid lo' hi (r.members container run frag cs) :=
      fun hopen one => ih h (fun d hd => hw d (by simp [hd])) hopen one
    have closed : Laid c.stop c.stop (ofFragment none ++ ofRun none) := laid_nil (Nat.le_refl _)
    unfold members
    split
    · next hm =>
      have solid := Node.start_lt_stop_of_isVoid (Node.isVoid_of_isMember hm)
      dsimp only
      split
      · next ht =>
        -- A terminator: the open fragment, with which no attachments are open, takes it in.
        have hfrag : frag.isSome := by
          simp only [Bool.and_eq_true] at ht
          exact ht.1.1
        obtain rfl := one hfrag
        have joined := laid_joinFragment (by simpa [ofRun] using hopen) a solid
        exact joined.append (later closed fun _ => rfl)
      · obtain ⟨mid, hfrag, hrun⟩ := hopen.exists_of_append
        refine hfrag.append ?_
        split
        · exact later (laid_joinRun hrun a solid) (by simp)
        · exact laid_startAfter hrun a solid (later closed fun _ => rfl)
        · have group : Laid lo hi (.group c :: r.members container none none cs) :=
            laid_cons a solid (later closed fun _ => rfl)
          exact hrun.append group
        · obtain ⟨mid', hps, hlast⟩ := (laid_cut_shards hc (r := r)).exists_of_append
          rw [List.append_assoc]
          refine hrun.append ((hps.widen a (Nat.le_refl _)).append ?_)
          exact later (by simpa [ofRun] using hlast) (by simp)
        · exact later (hrun.widen (Nat.le_refl _) (Nat.le_trans a b)) (by simp)
    · exact later (hopen.widen (Nat.le_refl _) (Nat.le_trans a b)) one

/-- The pieces of a block follow one another inside it. -/
theorem laid_blockPieces (h : n.WellPlaced) : Laid n.start n.stop (r.blockPieces n) :=
  laid_members h.row (fun _ hc => h.of_mem hc) (laid_nil (Nat.le_refl _)) (by simp)

theorem laid_regionPieces (h : n.WellPlaced) : Laid n.start n.stop (r.regionPieces n) :=
  laid_cut_shards h

end Rules

/-! ## Nested pieces -/

/-- A piece that comes from a well placed tree. -/
def Piece.WellPlaced : Piece → Prop
  | statement start n => start ≤ n.start ∧ n.WellPlaced
  | group n | block n => n.WellPlaced
  | fragment s => s.start < s.stop
  | attachments run => run.span.start < run.span.stop

namespace Rules

open Piece

variable {r : Rules} {p q : Piece} {n : Node}

theorem wellPlaced_of_solid (hq : q.Solid) (h : ∀ m, q.node? = some m → m.WellPlaced) :
    q.WellPlaced := by
  cases q with
  | statement start m => exact ⟨hq.1, h m rfl⟩
  | group m | block m => exact h m rfl
  | fragment | attachments => exact hq

theorem wellPlaced_of_mem_blockPieces (h : n.WellPlaced) (hq : q ∈ r.blockPieces n) :
    q.WellPlaced :=
  wellPlaced_of_solid ((laid_blockPieces h).solid q hq) fun _ hm =>
    (h.below (below_of_mem_blockPieces hm hq)).1

theorem wellPlaced_of_mem_regionPieces (h : n.WellPlaced) (hq : q ∈ r.regionPieces n) :
    q.WellPlaced :=
  wellPlaced_of_solid ((laid_regionPieces h).solid q hq) fun _ hm =>
    (h.below (below_of_mem_regionPieces hm hq)).1

theorem wellPlaced_of_mem_rootPieces (h : n.WellPlaced) (hq : q ∈ r.rootPieces n) :
    q.WellPlaced := by
  unfold rootPieces at hq
  split at hq
  · exact wellPlaced_of_mem_regionPieces h hq
  · exact wellPlaced_of_mem_blockPieces h hq

theorem wellPlaced_of_mem_partPieces {part : Part} (h : part.node.WellPlaced)
    (hq : q ∈ r.partPieces part) : q.WellPlaced := by
  cases part with
  | block b => exact wellPlaced_of_mem_blockPieces h hq
  | inline s =>
    obtain rfl := List.mem_singleton.1 hq
    exact ⟨Nat.le_refl _, h⟩
  | recovered e => exact wellPlaced_of_mem_regionPieces h hq

theorem wellPlaced_of_mem_inner (h : p.WellPlaced) (hq : q ∈ r.inner p) : q.WellPlaced := by
  cases p with
  | statement start n =>
    simp only [inner] at hq
    split at hq
    · obtain ⟨part, hpart, hq⟩ := List.mem_flatMap.1 hq
      exact wellPlaced_of_mem_partPieces (wellPlaced_of_mem_partsOf h.2 hpart) hq
    · simp at hq
  | group n | block n => exact wellPlaced_of_mem_blockPieces h hq
  | fragment | attachments => simp [inner] at hq

theorem row_partPieces {part : Part} (h : part.node.WellPlaced) :
    Row part.span.start part.span.stop ((r.partPieces part).map Piece.span) := by
  cases part with
  | block b => exact (laid_blockPieces h).row
  | inline s => exact ⟨Nat.le_refl _, h.start_le_stop, Nat.le_refl _⟩
  | recovered e => exact (laid_regionPieces h).row

/-- The pieces nested in a piece follow one another inside it. -/
theorem row_inner (h : p.WellPlaced) :
    Row p.span.start p.span.stop ((r.inner p).map Piece.span) := by
  cases p with
  | statement start n =>
    obtain ⟨hstart, hn⟩ := h
    have hle : start ≤ n.stop := Nat.le_trans hstart hn.start_le_stop
    simp only [inner]
    split
    · have parts := (row_partsOf hn (r := r)).widen hstart (Nat.le_refl _)
      exact parts.flatMap fun part hpart => row_partPieces (wellPlaced_of_mem_partsOf hn hpart)
    · exact hle
  | group n | block n => exact (laid_blockPieces h).row
  | fragment | attachments => exact Nat.le_of_lt h

theorem row_rootPieces (h : n.WellPlaced) :
    Row n.start n.stop ((r.rootPieces n).map Piece.span) := by
  unfold rootPieces
  split
  · exact (laid_regionPieces h).row
  · exact (laid_blockPieces h).row

/-- What holds of a piece when it holds of all pieces nested in it holds of every piece. -/
theorem piece_induction {motive : Piece → Prop}
    (step : ∀ p, (∀ q ∈ r.inner p, motive q) → motive p) (p : Piece) : motive p := by
  induction hw : p.weight using Nat.strongRecOn generalizing p with
  | ind w ih =>
    subst hw
    exact step p fun q hq => ih q.weight (weight_lt_of_mem_inner hq) q rfl

end Rules

/-! ## Sketches -/

namespace Sketch

def span : Sketch → Span
  | simple _ s | compound _ s _ | fragment s | group s _ => s
  | attachments run => run.span

mutual
/-- What a sketch holds follows one another inside it; fragments and attachments cover some text. -/
def WellPlaced : Sketch → Prop
  | simple _ s => s.start ≤ s.stop
  | fragment s => s.start < s.stop
  | attachments run => run.span.start < run.span.stop
  | compound _ s body | group s body =>
    Row s.start s.stop (body.map Sketch.span) ∧ AllWellPlaced body

/-- The same of several sketches. -/
def AllWellPlaced : List Sketch → Prop
  | [] => True
  | k :: ks => k.WellPlaced ∧ AllWellPlaced ks
end

theorem allWellPlaced_iff {ks : List Sketch} : AllWellPlaced ks ↔ ∀ k ∈ ks, k.WellPlaced := by
  induction ks with
  | nil => simp [AllWellPlaced]
  | cons k ks ih => simp [AllWellPlaced, ih]

theorem WellPlaced.start_le_stop {k : Sketch} (h : k.WellPlaced) : k.span.start ≤ k.span.stop := by
  cases k with
  | simple => rwa [WellPlaced] at h
  | fragment | attachments =>
    rw [WellPlaced] at h
    exact Nat.le_of_lt h
  | compound | group =>
    rw [WellPlaced] at h
    exact h.1.le

end Sketch

namespace Rules

variable {r : Rules} {n : Node}

theorem row_sketchAll {ps : List Piece} {lo hi : Nat} (h : Row lo hi (ps.map Piece.span))
    (each : ∀ p ∈ ps, Row p.span.start p.span.stop ((r.sketch p).map Sketch.span) ∧
      ∀ k ∈ r.sketch p, k.WellPlaced) :
    Row lo hi ((r.sketchAll ps).map Sketch.span) ∧ ∀ k ∈ r.sketchAll ps, k.WellPlaced := by
  constructor
  · exact h.flatMap fun p hp => (each p hp).1
  · intro k hk
    obtain ⟨p, hp, hk⟩ := List.mem_flatMap.1 hk
    exact (each p hp).2 k hk

/-- The sketch of a piece lies inside it. -/
theorem row_sketch (p : Piece) (h : p.WellPlaced) :
    Row p.span.start p.span.stop ((r.sketch p).map Sketch.span) ∧
      ∀ k ∈ r.sketch p, k.WellPlaced := by
  induction p using piece_induction (r := r) with
  | step p ih =>
    have nested := row_sketchAll (row_inner h (r := r)) fun q hq =>
      ih q hq (wellPlaced_of_mem_inner h hq)
    have hle := (row_inner h (r := r)).le
    have single : ∀ k : Sketch, k.span = p.span → k.WellPlaced →
        Row p.span.start p.span.stop ([k].map Sketch.span) ∧ ∀ l ∈ [k], l.WellPlaced := by
      intro k hk hw
      simpa [hk, hw] using hle
    have body : Sketch.AllWellPlaced (r.sketchAll (r.inner p)) :=
      Sketch.allWellPlaced_iff.2 nested.2
    rw [sketch_eq]
    cases p with
    | statement start n =>
      dsimp only
      split
      · exact single _ rfl (by rw [Sketch.WellPlaced]; exact ⟨nested.1, body⟩)
      · exact single _ rfl (by rw [Sketch.WellPlaced]; exact hle)
    | fragment s => exact single _ rfl (by rw [Sketch.WellPlaced]; exact h)
    | attachments run => exact single _ rfl (by rw [Sketch.WellPlaced]; exact h)
    | group n => exact single _ rfl (by rw [Sketch.WellPlaced]; exact ⟨nested.1, body⟩)
    | block n => exact nested

/-- The sketch of a well placed tree lies inside it. -/
theorem wellPlaced_sketchRoot (h : n.WellPlaced) :
    Row n.start n.stop ((r.sketchRoot n).map Sketch.span) ∧
      ∀ k ∈ r.sketchRoot n, k.WellPlaced :=
  row_sketchAll (row_rootPieces h) fun p hp =>
    row_sketch p (wellPlaced_of_mem_rootPieces h hp)

end Rules

end StatementOutline
