import StatementOutline.Proofs.Laminar
import StatementOutline.Proofs.Shards
import StatementOutline.Proofs.Terminators

/-!
# Errors in a forest

Where the walk over a tree finds an error it works off the pieces of the error, one after the other.
Each fragment becomes one simple statement, unless the statement around the error has the same span;
the statements and blocks in between become what they would become anywhere else. The last fragment
may go on to the end of a terminator behind the error.

* `Tears`, `exists_tears`: the pieces that the walk works off at an error;
* `Tears.planted`: they are planted in a row;
* `Forest.Emits`, `Forest.emitsAll_of_plantAll`: what planting them comes to;
* `Forest.torn_of_ofSketch`: what becomes of the errors of a tree.
-/

namespace StatementOutline

namespace Rules

open Piece

variable {r : Rules} {root b c e n : Node} {outer : Option Span} {t : Span} {p q : Piece}
  {ps front back : List Piece} {s : Scope} {f : Forest}

/-! ## Pieces in a row -/

/-- The walk over the tree finds the error, in the body of a statement or among the members of a
block, and recovers statements from it. -/
def Finds (r : Rules) (root : Node) (outer : Option Span) (e : Node) : Prop :=
  r.Recovers root outer e ∨
    ∃ b, r.Reads root outer b ∧ e ∈ b.children ∧ e.isMember = true ∧ e.error = true

/-- The pieces to which an error in the block comes: its own, but a terminator directly behind the
error is joined to the last fragment. -/
inductive Closes (r : Rules) (b e : Node) : List Piece → Prop
  | plain : Closes r b e (r.regionPieces e)
  | ended {c : Node} {before gap after : List Node} {t : Span} {ps : List Piece} :
      b.children = before ++ e :: gap ++ c :: after → (∀ d ∈ gap, d.isMember = false) →
      r.Ends b (before ++ e :: gap) t c → r.regionPieces e = ps ++ [.fragment t] →
      Closes r b e (ps ++ [.fragment ⟨t.start, c.stop⟩])

/-- Where the walk over the tree finds the error, it works off the pieces in a row. -/
inductive Tears (r : Rules) (root : Node) : Option Span → Node → List Piece → Prop
  | part {outer : Option Span} {e : Node} : r.Recovers root outer e →
      Tears r root outer e (r.regionPieces e)
  | member {outer : Option Span} {b e : Node} {front ps back : List Piece} :
      r.Reads root outer b → e ∈ b.children → r.Closes b e ps →
      r.blockPieces b = front ++ ps ++ back → Tears r root outer e ps

/-- Behind an error, children that are no members are passed over. The first member closes the open
fragment, or is the terminator that is joined to it. -/
theorem members_behind (r : Rules) (b : Node) (last : Option Span) (cs : List Node) :
    ∃ closing back, r.members (r.isContainer b.kind) none last cs = closing ++ back ∧
      (closing = ofFragment last ∨ ∃ t gap c rest, last = some t ∧ cs = gap ++ c :: rest ∧
        (∀ d ∈ gap, d.isMember = false) ∧ c.isMember = true ∧
        (r.roleIn b c).isStatement = true ∧ c.isTerminator = true ∧
        closing = [.fragment ⟨t.start, c.stop⟩]) := by
  induction cs with
  | nil => exact ⟨ofFragment last, [], by simp [members, ofRun], .inl rfl⟩
  | cons c cs ih =>
    obtain ⟨qs, run, frag, htake, hqs⟩ := r.exists_takes b none last c
    rw [hqs]
    cases htake with
    | pass hm =>
      obtain ⟨closing, back, hcs, h⟩ := ih
      refine ⟨closing, back, hcs, h.imp_right ?_⟩
      rintro ⟨t, gap, d, rest, hlast, rfl, hgap, hd⟩
      exact ⟨t, c :: gap, d, rest, hlast, rfl, List.forall_mem_cons.2 ⟨hm, hgap⟩, hd⟩
    | absorb hm hstatement hterm =>
      exact ⟨_, _, rfl, .inr ⟨_, [], c, cs, rfl, rfl, by simp, hm, hstatement, hterm, rfl⟩⟩
    | attach | skip => exact ⟨_, _, rfl, .inl rfl⟩
    | statement | group | recover => exact ⟨_, _, List.append_assoc _ _ _, .inl rfl⟩

/-- Wherever the walk finds an error it works off pieces. -/
theorem exists_tears (h : r.Finds root outer e) : ∃ ps, r.Tears root outer e ps := by
  rcases h with h | ⟨b, hb, he, hm, herror⟩
  · exact ⟨_, .part h⟩
  · obtain ⟨before, after, hsplit⟩ := List.append_of_mem he
    have hrole : r.roleIn b e = .recovered := role_eq_recovered_iff.2 herror
    obtain ⟨ps, run, frag, -, hps⟩ := r.exists_walks b before
    obtain ⟨qs, run', frag', htake, hqs⟩ := r.exists_takes b run frag e
    obtain ⟨closing, back, hback, hclosing⟩ := r.members_behind b (r.cut none e.shards).2 after
    -- In front of the pieces of the error stands what the error closes.
    have hall : r.blockPieces b =
        (ps ++ ofFragment frag ++ ofRun run) ++ ((r.cut none e.shards).1 ++ closing) ++ back := by
      rw [blockPieces, hsplit, hps, hqs]
      cases htake with
      | recover => simp [hback]
      | pass hno => simp [hm] at hno
      | absorb _ hstatement => simp [hrole, Role.isStatement] at hstatement
      | attach _ hother | statement _ hother | group _ hother | skip _ hother =>
        simp [hrole] at hother
    rcases hclosing with rfl | ⟨t, gap, c, rest, hlast, rfl, hgap, hcm, hstatement, hterm, rfl⟩
    · exact ⟨_, .member hb he .plain hall⟩
    · have region : r.regionPieces e = (r.cut none e.shards).1 ++ [.fragment t] := by
        simp [regionPieces, hlast, ofFragment]
      have behind : r.LeavesOpen b (before ++ e :: gap) t :=
        ⟨before, e, gap, rfl, hm, hrole, hlast, hgap⟩
      have hends := Ends.mk behind hcm hstatement hterm
      exact ⟨_, .member hb he (.ended (by simpa using hsplit) hgap hends region) hall⟩

namespace Closes

/-- The pieces are those of the error, and fragments. -/
theorem mem_cases (h : r.Closes b e ps) (hp : p ∈ ps) :
    (∃ t, p = .fragment t) ∨ p ∈ r.regionPieces e := by
  cases h with
  | plain => exact .inr hp
  | ended _ _ _ region =>
    rcases List.mem_append.1 hp with hp | hp
    · exact .inr (by simp [region, hp])
    · exact .inl ⟨_, List.mem_singleton.1 hp⟩

/-- Statements and blocks stay as they are. -/
theorem whole_mem (h : r.Closes b e ps) (hp : r.whole c ∈ r.regionPieces e) : r.whole c ∈ ps := by
  cases h with
  | plain => exact hp
  | ended _ _ _ region =>
    rw [region] at hp
    rcases List.mem_append.1 hp with hp | hp
    · exact List.mem_append_left _ hp
    · exact absurd (List.mem_singleton.1 hp) (whole_ne_fragment r c _)

/-- Fragments stay as they are, or go on to the end of a terminator. -/
theorem exists_fragment (h : r.Closes b e ps) (hb : b.WellPlaced) (he : e ∈ b.children)
    (ht : .fragment t ∈ r.regionPieces e) :
    ∃ u, .fragment u ∈ ps ∧ u.start ≤ t.start ∧ t.stop ≤ u.stop := by
  cases h with
  | plain => exact ⟨t, ht, Nat.le_refl _, Nat.le_refl _⟩
  | @ended c before gap after u ps hsplit _ _ region =>
    have laid := laid_regionPieces (hb.of_mem he) (r := r)
    have inside : t.stop ≤ e.stop := (laid.row.of_mem (List.mem_map_of_mem ht)).2.2
    have behind : e.stop ≤ c.start := hb.stop_le_of_split hsplit (by simp)
    have hc : c ∈ b.children := by simp [hsplit]
    rw [region] at ht
    rcases List.mem_append.1 ht with ht | ht
    · exact ⟨t, List.mem_append_left _ ht, Nat.le_refl _, Nat.le_refl _⟩
    · cases List.mem_singleton.1 ht
      refine ⟨_, List.mem_append_right _ (List.mem_singleton_self _), Nat.le_refl _, ?_⟩
      exact Nat.le_trans inside (Nat.le_trans behind (hb.of_mem hc).start_le_stop)

end Closes

namespace Tears

theorem reaches (h : r.Tears root outer e ps) (hp : p ∈ ps) : r.Reaches root outer p := by
  cases h with
  | part he => exact he.reaches hp
  | member hb _ _ hall => exact hb.reaches (by simp [hall, hp])

theorem mem_preorder (h : r.Tears root outer e ps) : e ∈ root.preorder := by
  cases h with
  | part he => exact he.mem_preorder
  | member hb he =>
    exact Node.mem_preorder_trans (Node.Below.child he).mem_preorder hb.mem_preorder

/-- The pieces follow one another. -/
theorem laid (h : r.Tears root outer e ps) (hroot : root.WellPlaced) : ∃ lo hi, Laid lo hi ps := by
  cases h with
  | part he => exact ⟨_, _, laid_regionPieces (hroot.of_mem_preorder he.mem_preorder).1⟩
  | member hb _ _ hall =>
    have laid := laid_blockPieces (hb.wellPlaced hroot) (r := r)
    rw [hall] at laid
    obtain ⟨hi, hfront, -⟩ := laid.exists_of_append
    obtain ⟨lo, -, hps⟩ := hfront.exists_of_append
    exact ⟨lo, hi, hps⟩

/-- The pieces are fragments, statements and blocks. -/
theorem mem_cases (h : r.Tears root outer e ps) (hp : p ∈ ps) :
    (∃ t, p = .fragment t) ∨ ∃ c, p = r.whole c := by
  have region := fallsInto_regionPieces r e
  cases h with
  | part => exact region.mem_cases hp
  | member _ _ hclosed =>
    rcases hclosed.mem_cases hp with fragment | hp
    · exact .inl fragment
    · exact region.mem_cases hp

theorem whole_mem (h : r.Tears root outer e ps) (hc : c ∈ e.shards) (firm : r.isLoose c = false) :
    r.whole c ∈ ps := by
  have hp := (fallsInto_regionPieces r e).whole_mem hc firm
  cases h with
  | part => exact hp
  | member _ _ hclosed => exact hclosed.whole_mem hp

/-- Every loose shard lies in one of the fragments. -/
theorem exists_fragment (h : r.Tears root outer e ps) (hroot : root.WellPlaced) (hc : c ∈ e.shards)
    (loose : r.isLoose c = true) : ∃ t, .fragment t ∈ ps ∧ t.start ≤ c.start ∧ c.stop ≤ t.stop := by
  have hrow := Node.row_shards (hroot.of_mem_preorder h.mem_preorder).1
  obtain ⟨t, ht, hstart, hstop⟩ := (fallsInto_regionPieces r e).exists_fragment hrow hc loose
  cases h with
  | part => exact ⟨t, ht, hstart, hstop⟩
  | member hb he hclosed =>
    obtain ⟨u, hu, a, b⟩ := hclosed.exists_fragment (hb.wellPlaced hroot) he ht
    exact ⟨u, hu, Nat.le_trans a hstart, Nat.le_trans hstop b⟩

/-- A fragment has no text in common with a statement or a block of the error. -/
theorem apart (h : r.Tears root outer e ps) (hroot : root.WellPlaced) (hc : c ∈ e.shards)
    (firm : r.isLoose c = false) (ht : .fragment t ∈ ps) : t.stop ≤ c.start ∨ c.stop ≤ t.start := by
  obtain ⟨lo, hi, laid⟩ := h.laid hroot
  have sides := laid.apart ht (h.whole_mem hc firm) (whole_ne_fragment r c t).symm
  rwa [span_whole] at sides

/-- No loose shard lies in two fragments. -/
theorem existsUnique_fragment (h : r.Tears root outer e ps) (hroot : root.WellPlaced)
    (hc : c ∈ e.shards) (loose : r.isLoose c = true) :
    ∃! t, .fragment t ∈ ps ∧ t.start ≤ c.start ∧ c.stop ≤ t.stop := by
  obtain ⟨lo, hi, laid⟩ := h.laid hroot
  obtain ⟨t, ht, hstart, hstop⟩ := h.exists_fragment hroot hc loose
  refine ⟨t, ⟨ht, hstart, hstop⟩, ?_⟩
  rintro u ⟨hu, hstart', hstop'⟩
  by_contra hne
  have solid := Node.start_lt_stop_of_isVoid (Node.isVoid_of_mem_shards hc)
  have hne' : Piece.fragment u ≠ .fragment t := fun heq => hne (Piece.fragment.inj heq)
  -- Both fragments would hold the text of the shard.
  have sides : u.stop ≤ t.start ∨ t.stop ≤ u.start := laid.apart hu ht hne'
  omega

end Tears

/-! ## Planting in a row -/

open Forest (Planted ofSketch planted_all)

/-- The pieces nested in the piece count. -/
inductive Opens (r : Rules) : Piece → Prop
  | statement {start : Nat} {n : Node} : r.isCompound n = true → Opens r (.statement start n)
  | group {n : Node} : Opens r (.group n)
  | block {n : Node} : Opens r (.block n)

theorem opens_of_mem_inner (hq : q ∈ r.inner p) : r.Opens p := by
  cases p with
  | statement start n =>
    cases hc : r.isCompound n with
    | true => exact .statement hc
    | false => simp [inner, hc] at hq
  | group => exact .group
  | block => exact .block
  | fragment | attachments => simp [inner] at hq

/-- Some of the pieces have been planted behind those in front of them. -/
theorem planted_middle (h : Planted s f outer (r.sketchAll (front ++ ps ++ back))) :
    Planted s f outer (r.sketchAll ps) := by
  simp only [sketchAll, List.flatMap_append] at h
  exact h.middle

theorem planted_of_mem (h : Planted s f outer (r.sketchAll ps)) (hp : p ∈ ps) :
    Planted s f outer (r.sketch p) := by
  obtain ⟨front, back, rfl⟩ := List.append_of_mem hp
  rw [← List.singleton_append, ← List.append_assoc] at h
  simpa [sketchAll] using planted_middle h

/-- Where a piece has been planted, those nested in it have been. -/
theorem Opens.planted_inner (hp : r.Opens p) (h : Planted s f outer (r.sketch p))
    (hm : s.query.Meets p.span) : Planted s f (p.around outer) (r.sketchAll (r.inner p)) := by
  obtain ⟨k, hd⟩ | ⟨n, rfl⟩ := drawn_or_block (r := r) p
  · have hopen : k.isOpen = true := by
      cases hp with
      | statement hc => cases hd with
        | simple hno => simp [hc] at hno
        | compound => rfl
      | group => cases hd; rfl
      | block => cases hd
    rw [hd.sketch_eq] at h
    rw [← hd.body_eq, ← hd.around_eq]
    exact h.body (hd.span_eq ▸ hm) hopen
  · rwa [sketch_eq] at h

/-- Each piece that the walk comes to and the query meets has been planted. -/
theorem planted_of_reaches (hroot : root.WellPlaced) (hf : ofSketch s (r.sketchRoot root) = .ok f)
    (h : r.Reaches root outer p) (hm : s.query.Meets p.span) : Planted s f outer (r.sketch p) := by
  induction h with
  | top hp => exact planted_of_mem (planted_all hf) hp
  | nested hp hq ih =>
    obtain ⟨a, -, b⟩ := (row_inner (hp.wellPlaced hroot)).of_mem (List.mem_map_of_mem hq)
    -- A query that meets a piece meets the one around it, so that one has been planted before.
    have hmp := hm.mono a b
    exact planted_of_mem ((opens_of_mem_inner hq).planted_inner (ih hmp) hmp) hq

/-- The pieces of one part of a body have been planted under the statement. -/
theorem planted_part {start : Nat} {part : Part} (hroot : root.WellPlaced)
    (hf : ofSketch s (r.sketchRoot root) = .ok f) (hn : r.Reaches root outer (.statement start n))
    (hc : r.isCompound n = true) (hpart : part ∈ r.partsOf n) (hm : s.query.Meets part.span) :
    Planted s f (some ⟨start, n.stop⟩) (r.sketchAll (r.partPieces part)) := by
  obtain ⟨hstart, hnw⟩ := hn.wellPlaced hroot
  obtain ⟨a, -, b⟩ := (row_partsOf hnw).of_mem (List.mem_map_of_mem hpart)
  have hmn : s.query.Meets (Piece.statement start n).span := hm.mono (Nat.le_trans hstart a) b
  have nested := (Opens.statement hc).planted_inner (planted_of_reaches hroot hf hn hmn) hmn
  obtain ⟨pre, post, hparts⟩ := List.append_of_mem hpart
  rw [inner, if_pos hc, hparts, List.flatMap_append, List.flatMap_cons,
    ← List.append_assoc] at nested
  exact planted_middle nested

/-- The pieces of a block that the walk reads have been planted. -/
theorem Reads.planted (h : r.Reads root outer b) (hroot : root.WellPlaced)
    (hf : ofSketch s (r.sketchRoot root) = .ok f) (hm : s.query.Meets b.span) :
    Planted s f outer (r.sketchAll (r.blockPieces b)) := by
  cases h with
  | root herror => simpa [sketchRoot, rootPieces, herror] using planted_all hf
  | group hb => exact Opens.group.planted_inner (planted_of_reaches hroot hf hb hm) hm
  | block hb => exact Opens.block.planted_inner (planted_of_reaches hroot hf hb hm) hm
  | part hn hc hpart => exact planted_part hroot hf hn hc hpart hm

theorem Recovers.planted (h : r.Recovers root outer e) (hroot : root.WellPlaced)
    (hf : ofSketch s (r.sketchRoot root) = .ok f) (hm : s.query.Meets e.span) :
    Planted s f outer (r.sketchAll (r.regionPieces e)) := by
  cases h with
  | root herror => simpa [sketchRoot, rootPieces, herror] using planted_all hf
  | part hn hc hpart => exact planted_part hroot hf hn hc hpart hm

/-- The pieces of an error that the walk finds have been planted. -/
theorem Tears.planted (h : r.Tears root outer e ps) (hroot : root.WellPlaced)
    (hf : ofSketch s (r.sketchRoot root) = .ok f) (hm : s.query.Meets e.span) :
    Planted s f outer (r.sketchAll ps) := by
  cases h with
  | part he => exact he.planted hroot hf hm
  | member hb he _ hall =>
    obtain ⟨a, b⟩ := (hb.wellPlaced hroot).inside he
    have row := hb.planted hroot hf (hm.mono a b)
    rw [hall] at row
    exact planted_middle row

end Rules

namespace Forest

open Rules

variable {s : Scope} {r : Rules} {root e : Node} {parent : Option Nat} {outer : Option Span}
  {f g h : Forest} {p : Piece} {ps : List Piece}

/-! ## What is emitted -/

/-- What the walk does at a piece of an error, under the statement with the span `outer` or at the
top: the forest before and the forest behind it. -/
inductive Emits (s : Scope) (r : Rules) (parent : Option Nat) (outer : Option Span) :
    Forest → Piece → Forest → Prop
  /-- A fragment becomes one simple statement. -/
  | fragment {f g : Forest} {t : Span} : outer ≠ some t →
      f.push errorKind t false parent = .ok g → Emits s r parent outer f (.fragment t) g
  /-- It does not if the statement around the error has the same span. -/
  | merged {f : Forest} {t : Span} : outer = some t → Emits s r parent outer f (.fragment t) f
  /-- A statement is visited. -/
  | statement {f g : Forest} {c : Node} :
      plantAll s parent (r.sketch (.statement c.start c)) f = .ok g →
      Emits s r parent outer f (.statement c.start c) g
  /-- The members of a block are walked. -/
  | block {f g : Forest} {c : Node} : plantAll s parent (r.sketchAll (r.blockPieces c)) f = .ok g →
      Emits s r parent outer f (.block c) g

/-- What the walk does at several pieces, one after the other. -/
inductive EmitsAll (s : Scope) (r : Rules) (parent : Option Nat) (outer : Option Span) :
    Forest → List Piece → Forest → Prop
  | nil {f : Forest} : EmitsAll s r parent outer f [] f
  | cons {f g h : Forest} {p : Piece} {ps : List Piece} : Emits s r parent outer f p g →
      EmitsAll s r parent outer g ps h → EmitsAll s r parent outer f (p :: ps) h

/-- Pieces of errors are fragments that the scope admits, and statements and blocks. -/
theorem emits_of_plantAll (hplace : f.Place parent outer)
    (hp : (∃ t, p = .fragment t ∧ s.Admits t false) ∨ ∃ c, p = r.whole c)
    (hplant : plantAll s parent (r.sketch p) f = .ok g) : Emits s r parent outer f p g := by
  rcases hp with ⟨t, rfl, hadmits⟩ | ⟨c, rfl⟩
  · rw [Rules.sketch_eq, plantAll_singleton, plant] at hplant
    obtain ⟨hno, hsame⟩ | ⟨-, hno, hpush⟩ := plantSimple_cases hplant
    · have hmerge : f.merges t parent = true := by simpa [hadmits] using hno
      rw [hsame]
      exact .merged (hplace.merges_iff.1 hmerge)
    · exact .fragment (fun hmerge => by simp [hplace.merges_iff.2 hmerge] at hno) hpush
  · unfold whole at hplant ⊢
    split at hplant
    · next hs =>
      rw [if_pos hs]
      exact .statement hplant
    · next hs =>
      rw [if_neg hs]
      rw [Rules.sketch_eq] at hplant
      exact .block hplant

theorem emitsAll_of_plantAll (hplace : f.Place parent outer)
    (hps : ∀ p ∈ ps, (∃ t, p = .fragment t ∧ s.Admits t false) ∨ ∃ c, p = r.whole c)
    (hplant : plantAll s parent (r.sketchAll ps) f = .ok g) : EmitsAll s r parent outer f ps g := by
  induction ps generalizing f with
  | nil =>
    obtain rfl : f = g := by simpa [sketchAll] using hplant
    exact .nil
  | cons p ps ih =>
    obtain ⟨hp, hps⟩ := List.forall_mem_cons.1 hps
    obtain ⟨h, hfirst, hrest⟩ := plantAll_append_ok.1 hplant
    have there := hplace.grown (plantAll_grown _ hfirst)
    exact .cons (emits_of_plantAll hplace hp hfirst) (ih there hps hrest)

/-! ## What becomes of errors -/

/-- What becomes of an error that the walk over the tree finds. -/
structure Torn (f : Forest) (s : Scope) (r : Rules) (root : Node) (outer : Option Span) (e : Node)
    (ps : List Piece) : Prop where
  /-- The walk works off pieces in a row, those of the error or with a terminator joined to the
  last. -/
  tears : r.Tears root outer e ps
  /-- Into those the shards of the error fall, in the order of the text, loose ones in runs as long
  as can be. -/
  falls : r.FallsInto e.shards (r.regionPieces e)
  /-- Runs go on into inner errors and out of them. -/
  threaded : (r.tear none e).1 ++ Piece.ofFragment (r.tear none e).2 = r.regionPieces e
  /-- One after the other the pieces are emitted, and what they came to has stayed. -/
  emitted : e.start < e.stop → ∃ parent f₁ f₂, f₁.Place parent outer ∧
    EmitsAll s r parent outer f₁ ps f₂ ∧ f₂.records <+: f.records
  /-- A fragment is one simple statement, or it has the span of the statement around the error. -/
  once : ∀ t, .fragment t ∈ ps → outer = some t ∨ ∃! i, ∃ x, f.get? i = some x ∧
    x.kind = errorKind ∧ x.span = t ∧ x.compound = false
  statements : ∀ c ∈ e.shards, c.named = true → r.isStatement c.kind = true →
    outer = some c.span ∨ ∃ i x, f.get? i = some x ∧ r.Gives (.statement c.start c) x.record
  /-- Blocks leave no trace; their members stand where the error stands. -/
  blocks : ∀ c ∈ e.shards, c.named = true → r.isStatement c.kind = false →
    r.isBlock c.kind = true → r.Reads root outer c
  /-- Every other shard lies in one of the fragments and in no other. -/
  covered : ∀ c ∈ e.shards, r.isLoose c = true →
    ∃! t, .fragment t ∈ ps ∧ t.start ≤ c.start ∧ c.stop ≤ t.stop
  /-- Fragments have no text in common with statements and blocks. -/
  apart : ∀ c ∈ e.shards, r.isLoose c = false → ∀ t, .fragment t ∈ ps →
    t.stop ≤ c.start ∨ c.stop ≤ t.start

/-- The statement that a fragment becomes is the only one with the span. -/
theorem Laminar.existsUnique_of_gives {t : Span} {i : Nat} {x : Entry} (hf : f.Laminar)
    (hx : f.get? i = some x) (hgives : r.Gives (.fragment t) x.record) :
    ∃! i, ∃ x, f.get? i = some x ∧ x.kind = errorKind ∧ x.span = t ∧ x.compound = false := by
  have stored : ∀ {y : Record}, r.Gives (.fragment t) y →
      y.kind = errorKind ∧ y.span = t ∧ y.compound = false := by
    rintro y ⟨⟩
    exact ⟨rfl, rfl, rfl⟩
  obtain ⟨hkind, hspan, hsimple⟩ := stored hgives
  have hspan : x.span = t := hspan
  refine ⟨i, ⟨x, hx, hkind, hspan, hsimple⟩, ?_⟩
  rintro j ⟨y, hy, -, rfl, -⟩
  exact (hf.distinct i j x y hx hy hspan).symm

/-- Whatever the language, when a query covers all of the source, the errors that the walk finds are
cut into longest runs, and nothing of them is lost. -/
theorem torn_of_ofSketch {l : Language} {n : Nat} {policy : RangePolicy} (hroot : root.WellPlaced)
    (hstop : root.stop ≤ n) (hf : ofSketch ⟨⟨0, n⟩, policy⟩ (l.rules.sketchRoot root) = .ok f)
    (hfinds : l.rules.Finds root outer e) :
    ∃ ps, f.Torn ⟨⟨0, n⟩, policy⟩ l.rules root outer e ps := by
  obtain ⟨ps, htears⟩ := exists_tears hfinds
  obtain ⟨lo, hi, laid⟩ := htears.laid hroot
  have laminar := (sound_of_ofSketch hf).laminar
  have admits : ∀ {p compound}, p ∈ ps →
      (⟨⟨0, n⟩, policy⟩ : Scope).Admits p.span compound := fun hp =>
    Scope.admits_of_stop_le (laid.solid _ hp).start_lt_stop
      (Nat.le_trans ((htears.reaches hp).stop_le hroot) hstop)
  refine ⟨ps, htears, fallsInto_regionPieces _ e, ?_, ?_, ?_, ?_, ?_, ?_, ?_⟩
  · rw [tear_eq_cut]
    rfl
  · intro hsolid
    have hend := Nat.le_trans (hroot.of_mem_preorder htears.mem_preorder).2.2 hstop
    have hwhole : (⟨⟨0, n⟩, policy⟩ : Scope).Admits e.span true :=
      Scope.admits_of_stop_le hsolid hend
    obtain ⟨parent, f₁, f₂, -, hplace, hplant, new, hnew, -⟩ := htears.planted hroot hf hwhole.1
    refine ⟨parent, f₁, f₂, hplace, emitsAll_of_plantAll hplace ?_ hplant, new, hnew.symm⟩
    intro p hp
    rcases htears.mem_cases hp with ⟨t, rfl⟩ | whole
    · exact .inl ⟨t, rfl, admits hp⟩
    · exact .inr whole
  · intro t ht
    have hgives : l.rules.Gives (.fragment t) ⟨errorKind, t, false, none⟩ := .fragment
    rcases exists_record_of_reaches hroot hf (htears.reaches ht) hgives (admits ht) with
      merged | ⟨i, x, hx, hstored⟩
    · exact .inl merged
    · exact .inr (laminar.existsUnique_of_gives hx hstored)
  · intro c hc hnamed hstatement
    have hp := htears.whole_mem hc (isLoose_eq_false_iff.2 ⟨hnamed, .inl hstatement⟩)
    rw [whole_of_isStatement hstatement] at hp
    have hgives : l.rules.Gives (.statement c.start c)
        ⟨c.kind, c.span, l.rules.isCompound c, none⟩ := .statement
    exact exists_record_of_reaches hroot hf (htears.reaches hp) hgives (admits hp)
  · intro c hc hnamed hno hblock
    have hp := htears.whole_mem hc (isLoose_eq_false_iff.2 ⟨hnamed, .inr hblock⟩)
    rw [whole_of_not_isStatement hno] at hp
    exact .block (htears.reaches hp)
  · intro c hc loose
    exact htears.existsUnique_fragment hroot hc loose
  · intro c hc firm t ht
    exact htears.apart hroot hc firm ht

/-! ## An error in an error

In the text `) )      a(); ))` the parser makes out one statement. The parentheses next to it stand
in an inner error, the other ones around it. -/

def brokenRoot : Node :=
  .mk ⟨"ERROR", none, ⟨0, 16⟩, true, false, true, false, true⟩ [
    token ")" 0,
    .mk ⟨"ERROR", none, ⟨2, 15⟩, true, true, true, false, true⟩ [
      token ")" 2, callStatement, token ")" 14],
    token ")" 15]

def brokenForest : Forest :=
  ⟨#[⟨"ERROR", ⟨0, 3⟩, false, none, #[]⟩,
    ⟨"expression_statement", ⟨9, 13⟩, false, none, #[]⟩,
    ⟨"ERROR", ⟨14, 16⟩, false, none, #[]⟩], #[0, 1, 2]⟩

theorem ofSketch_broken :
    ofSketch ⟨⟨0, 16⟩, .intersecting⟩ (Language.rust.rules.sketchRoot brokenRoot) =
      .ok brokenForest := by
  have hpieces : Language.rust.rules.rootPieces brokenRoot =
      [.fragment ⟨0, 3⟩, .statement 9 callStatement, .fragment ⟨14, 16⟩] := rfl
  have hsketch : Language.rust.rules.sketch (.statement 9 callStatement) =
      [.simple "expression_statement" ⟨9, 13⟩] := by
    rw [Rules.sketch_eq]
    simp only [isCompound_callStatement, Bool.false_eq_true, if_false]
    rfl
  have hfragment : ∀ t, Language.rust.rules.sketch (.fragment t) = [.fragment t] := fun t => by
    rw [Rules.sketch_eq]
  rw [sketchRoot, hpieces, sketchAll]
  simp only [List.flatMap_cons, List.flatMap_nil, hsketch, hfragment]
  rfl

theorem torn_broken : brokenRoot.WellPlaced ∧ brokenRoot.stop ≤ 16 ∧
    ofSketch ⟨⟨0, 16⟩, .intersecting⟩ (Language.rust.rules.sketchRoot brokenRoot) =
      .ok brokenForest ∧ Language.rust.rules.Finds brokenRoot none brokenRoot ∧
    ∃ ps, brokenForest.Torn ⟨⟨0, 16⟩, .intersecting⟩ Language.rust.rules brokenRoot none
      brokenRoot ps := by
  have placed : brokenRoot.WellPlaced := by decide
  have finds : Language.rust.rules.Finds brokenRoot none brokenRoot := .inl (.root rfl)
  exact ⟨placed, Nat.le_refl 16, ofSketch_broken, finds,
    torn_of_ofSketch placed (Nat.le_refl 16) ofSketch_broken finds⟩

end Forest

end StatementOutline
