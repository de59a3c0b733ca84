import StatementOutline.Proofs.Planting
import StatementOutline.Proofs.Reach

/-!
# Where statements come from

Every statement of a forest is drawn from a piece that the walk over the tree comes to. Pieces start
where a node starts and stop where a node stops, also those that cover several nodes, and so do the
statements.

* `exists_reaches_of_mem_records`, `exists_gives_of_get?`: the piece from which a statement is
  drawn;
* `Reaches.endsIn`: where pieces start and stop;
* `endsIn_of_ofSketch`: where statements start and stop.
-/

namespace StatementOutline

/-! ## Statements and sketches -/

namespace Sketch

/-- The record is that of the sketch, wherever it is put. -/
inductive Stores : Sketch → Record → Prop
  | simple {kind : String} {span : Span} {parent : Option Nat} :
      Stores (.simple kind span) ⟨kind, span, false, parent⟩
  | compound {kind : String} {span : Span} {body : List Sketch} {parent : Option Nat} :
      Stores (.compound kind span body) ⟨kind, span, true, parent⟩
  | fragment {span : Span} {parent : Option Nat} :
      Stores (.fragment span) ⟨Forest.errorKind, span, false, parent⟩
  | attachments {run : Run} {parent : Option Nat} :
      Stores (.attachments run) ⟨run.kind, run.span, false, parent⟩

theorem Stores.span_eq {k : Sketch} {x : Record} (h : k.Stores x) : x.span = k.span := by
  cases h <;> rfl

/-- The record is that of a sketch that occurs among some. -/
def Yields (all : List Sketch) (x : Record) : Prop :=
  ∃ outer k, Occurs all outer k ∧ k.Stores x

end Sketch

namespace Forest

open Sketch

variable {s : Scope} {all : List Sketch} {x : Record} {f : Forest}

mutual
/-- Planting adds records of the sketch and of those inside it. -/
theorem plant_yields : ∀ (k : Sketch) {parent : Option Nat} {outer : Option Span} {f g : Forest},
    Occurs all outer k → plant s parent k f = .ok g → Extends (Yields all) f g
  | .simple kind span, parent, outer, f, g, hk, hg => by
    rw [plant] at hg
    obtain ⟨-, rfl⟩ | ⟨-, -, hp⟩ := plantSimple_cases hg
    · exact .refl
    · exact extends_of_push hp ⟨outer, _, hk, .simple⟩
  | .fragment span, parent, outer, f, g, hk, hg => by
    rw [plant] at hg
    obtain ⟨-, rfl⟩ | ⟨-, -, hp⟩ := plantSimple_cases hg
    · exact .refl
    · exact extends_of_push hp ⟨outer, _, hk, .fragment⟩
  | .attachments run, parent, outer, f, g, hk, hg => by
    rw [plant] at hg
    obtain ⟨-, rfl⟩ | ⟨-, hp⟩ := plantRun_cases hg
    · exact .refl
    · exact extends_of_push hp ⟨outer, _, hk, .attachments⟩
  | .group span body, parent, outer, f, g, hk, hg => by
    obtain ⟨-, rfl⟩ | ⟨-, hb⟩ := plant_group_cases hg
    · exact .refl
    · exact plantAll_yields body (fun l hl => .nested hk hl) hb
  | .compound kind span body, parent, outer, f, g, hk, hg => by
    have below : ∀ l ∈ body, Occurs all (some span) l := fun l hl => .nested hk hl
    obtain ⟨-, rfl⟩ | ⟨-, -, hb⟩ | ⟨-, -, h, hp, hb⟩ := plant_compound_cases hg
    · exact .refl
    · exact plantAll_yields body below hb
    · exact (extends_of_push hp ⟨outer, _, hk, .compound⟩).trans (plantAll_yields body below hb)

theorem plantAll_yields : ∀ (ks : List Sketch) {parent : Option Nat} {outer : Option Span}
    {f g : Forest}, (∀ k ∈ ks, Occurs all outer k) → plantAll s parent ks f = .ok g →
    Extends (Yields all) f g
  | [], parent, outer, f, g, _, hg => by
    obtain rfl : f = g := by simpa using hg
    exact .refl
  | k :: ks, parent, outer, f, g, hall, hg => by
    obtain ⟨h, hk, hks⟩ := plantAll_cons_ok.1 hg
    have first := plant_yields k (hall k (by simp)) hk
    exact first.trans (plantAll_yields ks (fun l hl => hall l (by simp [hl])) hks)
end

/-- A statement of a built forest is that of a sketch. -/
theorem yields_of_ofSketch (h : ofSketch s all = .ok f) (hx : x ∈ f.records) : Yields all x := by
  have added := plantAll_yields all (fun k hk => .top hk) h
  exact added.forall_of_empty x hx

/-- A statement of a built forest is drawn from a piece that the walk comes to. -/
theorem exists_reaches_of_mem_records {r : Rules} {root : Node}
    (h : ofSketch s (r.sketchRoot root) = .ok f) (hx : x ∈ f.records) :
    ∃ outer p k, r.Reaches root outer p ∧ r.Drawn p k ∧ k.Stores x := by
  obtain ⟨outer, k, hk, hs⟩ := yields_of_ofSketch h hx
  obtain ⟨p, hp, hd⟩ := Rules.occurs_iff_reaches.1 hk
  exact ⟨outer, p, k, hp, hd, hs⟩

end Forest

namespace Rules

variable {r : Rules} {root : Node} {p : Piece} {k : Sketch} {x : Record}

/-- The record is that of the piece, wherever it is put. -/
inductive Gives (r : Rules) : Piece → Record → Prop
  | statement {start : Nat} {n : Node} {parent : Option Nat} :
      Gives r (.statement start n) ⟨n.kind, ⟨start, n.stop⟩, r.isCompound n, parent⟩
  | fragment {span : Span} {parent : Option Nat} :
      Gives r (.fragment span) ⟨Forest.errorKind, span, false, parent⟩
  | attachments {run : Run} {parent : Option Nat} :
      Gives r (.attachments run) ⟨run.kind, run.span, false, parent⟩

theorem Drawn.gives (h : r.Drawn p k) (hx : k.Stores x) : r.Gives p x := by
  cases h with
  | simple hc =>
    cases hx
    exact hc ▸ .statement
  | compound hc =>
    cases hx
    exact hc ▸ .statement
  | fragment =>
    cases hx
    exact .fragment
  | attachments =>
    cases hx
    exact .attachments
  | group => cases hx

/-- A statement of a built forest is given by a piece that the walk comes to. -/
theorem exists_gives_of_get? {s : Scope} {f : Forest} {i : Nat} {e : Entry}
    (h : Forest.ofSketch s (r.sketchRoot root) = .ok f) (he : f.get? i = some e) :
    ∃ outer p, r.Reaches root outer p ∧ r.Gives p e.record := by
  obtain ⟨outer, p, k, hp, hd, hs⟩ :=
    Forest.exists_reaches_of_mem_records h (List.mem_of_getElem? (Forest.records_of_get? he))
  exact ⟨outer, p, hp, hd.gives hs⟩

end Rules

/-! ## Ends -/

/-- All nodes of the tree start and stop at offsets with a property. -/
def Node.EndsIn (P : Nat → Prop) (n : Node) : Prop :=
  n.All fun m => P m.start ∧ P m.stop

instance (P : Nat → Prop) [DecidablePred P] (n : Node) : Decidable (n.EndsIn P) :=
  inferInstanceAs (Decidable (n.All fun m => P m.start ∧ P m.stop))

/-- The piece starts and stops at such offsets. -/
def Piece.EndsIn (P : Nat → Prop) (p : Piece) : Prop :=
  P p.span.start ∧ P p.span.stop

variable {P : Nat → Prop} {n m c : Node} {r : Rules}

theorem Node.EndsIn.ends (h : n.EndsIn P) : P n.start ∧ P n.stop :=
  All.self h

theorem Node.EndsIn.of_below (h : n.EndsIn P) (hm : Node.Below m n) : m.EndsIn P :=
  All.of_below h hm

namespace Piece

variable {frag : Option Span} {run : Option Run}

theorem endsIn_joinFragment (h : ∀ p ∈ ofFragment frag, p.EndsIn P) (hn : n.EndsIn P) :
    (Piece.fragment (joinFragment frag n)).EndsIn P := by
  refine ⟨?_, hn.ends.2⟩
  cases frag with
  | none => exact hn.ends.1
  | some s => exact (h (.fragment s) (by simp [ofFragment])).1

theorem endsIn_joinRun (h : ∀ p ∈ ofRun run, p.EndsIn P) (hn : n.EndsIn P) :
    (Piece.attachments (joinRun run n)).EndsIn P := by
  cases run with
  | none => exact hn.ends
  | some s => exact ⟨(h (.attachments s) (by simp [ofRun])).1, hn.ends.2⟩

theorem endsIn_startAfter (h : ∀ p ∈ ofRun run, p.EndsIn P) (hn : n.EndsIn P) :
    (Piece.statement (startAfter run n) n).EndsIn P := by
  refine ⟨?_, hn.ends.2⟩
  cases run with
  | none => exact hn.ends.1
  | some s => exact (h (.attachments s) (by simp [ofRun])).1

end Piece

namespace Rules

open Piece

variable {p q : Piece} {root : Node} {outer : Option Span}

theorem endsIn_cut_shards (h : n.EndsIn P) :
    ∀ p ∈ (r.cut none n.shards).1 ++ ofFragment (r.cut none n.shards).2, p.EndsIn P := by
  have shard : ∀ s ∈ n.shards, s.EndsIn P := fun s hs => h.of_below (Node.below_of_mem_shards hs)
  refine forall_mem_cut (fun s hs => (shard s hs).ends) (fun s hs => (shard s hs).ends) ?_
    (by simp [ofFragment])
  intro frag s hs hfrag
  exact endsIn_joinFragment hfrag (shard s hs)

theorem endsIn_members {container : Bool} {run : Option Run} {frag : Option Span} {cs : List Node}
    (hcs : ∀ c ∈ cs, c.EndsIn P) (hfrag : ∀ p ∈ ofFragment frag, p.EndsIn P)
    (hrun : ∀ p ∈ ofRun run, p.EndsIn P) :
    ∀ p ∈ r.members container run frag cs, p.EndsIn P := by
  induction cs generalizing run frag with
  | nil => exact List.forall_mem_append.2 ⟨hfrag, hrun⟩
  | cons c cs ih =>
    obtain ⟨hc, hcs⟩ := List.forall_mem_cons.1 hcs
    have no_frag : ∀ p ∈ ofFragment none, p.EndsIn P := by simp [ofFragment]
    have no_run : ∀ p ∈ ofRun none, p.EndsIn P := by simp [ofRun]
    unfold members
    split
    · dsimp only
      split
      · exact List.forall_mem_cons.2 ⟨endsIn_joinFragment hfrag hc, ih hcs no_frag hrun⟩
      · refine List.forall_mem_append.2 ⟨hfrag, ?_⟩
        split
        · exact ih hcs no_frag (by simpa [ofRun] using endsIn_joinRun hrun hc)
        · exact List.forall_mem_cons.2 ⟨endsIn_startAfter hrun hc, ih hcs no_frag no_run⟩
        · refine List.forall_mem_append.2 ⟨hrun, ?_⟩
          exact List.forall_mem_cons.2 ⟨hc.ends, ih hcs no_frag no_run⟩
        · obtain ⟨hps, hlast⟩ := List.forall_mem_append.1 (endsIn_cut_shards hc (r := r))
          rw [List.append_assoc]
          refine List.forall_mem_append.2 ⟨hrun, List.forall_mem_append.2 ⟨hps, ?_⟩⟩
          exact ih hcs hlast no_run
        · exact ih hcs no_frag hrun
    · exact ih hcs hfrag hrun

theorem endsIn_blockPieces (h : n.EndsIn P) : ∀ q ∈ r.blockPieces n, q.EndsIn P :=
  endsIn_members (fun _ hc => h.of_below (.child hc)) (by simp [ofFragment]) (by simp [ofRun])

theorem endsIn_partPieces {part : Part} (h : part.node.EndsIn P) :
    ∀ q ∈ r.partPieces part, q.EndsIn P := by
  cases part with
  | block b => exact endsIn_blockPieces h
  | inline s =>
    intro q hq
    obtain rfl := List.mem_singleton.1 hq
    exact Node.EndsIn.ends h
  | recovered e => exact endsIn_cut_shards h

/-- Pieces nested in a piece start and stop where the nodes of that piece do. -/
theorem endsIn_inner (h : p.All fun m => P m.start ∧ P m.stop) :
    ∀ q ∈ r.inner p, q.EndsIn P := by
  cases p with
  | statement start n =>
    have hn : n.EndsIn P := h n rfl
    simp only [inner]
    split
    · intro q hq
      obtain ⟨part, hpart, hq⟩ := List.mem_flatMap.1 hq
      refine endsIn_partPieces ?_ q hq
      obtain rfl | hb := below_of_mem_partsOf hpart
      · exact hn
      · exact hn.of_below hb
    · simp
  | group n | block n => exact endsIn_blockPieces (h n rfl)
  | fragment | attachments => simp [inner]

theorem endsIn_rootPieces (h : n.EndsIn P) : ∀ q ∈ r.rootPieces n, q.EndsIn P := by
  unfold rootPieces
  split
  · exact endsIn_cut_shards h
  · exact endsIn_blockPieces h

/-- All pieces of a tree start and stop where its nodes do. -/
theorem Reaches.endsIn (h : r.Reaches root outer p) (hroot : root.EndsIn P) : p.EndsIn P := by
  cases h with
  | top hp => exact endsIn_rootPieces hroot _ hp
  | nested h hq => exact endsIn_inner (h.all hroot) _ hq

theorem Drawn.span_eq {k : Sketch} (h : r.Drawn p k) : k.span = p.span := by
  cases h <;> rfl

end Rules

/-- All statements of a tree start and stop where its nodes do. -/
theorem Forest.endsIn_of_ofSketch {s : Scope} {f : Forest} {root : Node} {x : Record}
    (h : ofSketch s (r.sketchRoot root) = .ok f) (hroot : root.EndsIn P) (hx : x ∈ f.records) :
    P x.span.start ∧ P x.span.stop := by
  obtain ⟨outer, p, k, hp, hd, hs⟩ := exists_reaches_of_mem_records h hx
  rw [hs.span_eq, hd.span_eq]
  exact hp.endsIn hroot

theorem Forest.endsIn_of_get? {s : Scope} {f : Forest} {root : Node} {i : Nat} {e : Entry}
    (h : ofSketch s (r.sketchRoot root) = .ok f) (hroot : root.EndsIn P) (he : f.get? i = some e) :
    P e.span.start ∧ P e.span.stop :=
  endsIn_of_ofSketch h hroot (List.mem_of_getElem? (records_of_get? he))

end StatementOutline
