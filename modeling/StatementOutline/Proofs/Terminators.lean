import StatementOutline.Proofs.Members
import StatementOutline.Proofs.Recording
import StatementOutline.Proofs.Simple
import StatementOutline.Text.Units

/-!
# Terminators behind errors

The last fragment of an error in a block takes in the member behind it when that is a statement of
one byte without named children, whatever the byte is. It takes in nothing else, and every other
statement in the block becomes one of its own, clear of all fragments of the block.

* `endsAmong_of_mem_regionPieces`: fragments start and stop where shards of their error do;
* `fragment_cases`: the fragments of a block;
* `taken_or_made`: what becomes of a statement of a block;
* `Forest.terminated_of_ofSketch`: the same of a built forest.
-/

namespace StatementOutline

namespace Rules

open Piece

variable {r : Rules} {b c e root : Node} {outer : Option Span} {before after : List Node}
  {s span : Span}

/-! ## Where fragments end -/

/-- The span starts where one of the nodes starts and stops where one of them stops. -/
def EndsAmong (ss : List Node) (span : Span) : Prop :=
  ∃ y ∈ ss, ∃ z ∈ ss, span.start = y.start ∧ span.stop = z.stop

/-- The fragments of an error start and stop where its shards do. -/
theorem endsAmong_of_mem_regionPieces (h : .fragment span ∈ r.regionPieces e) :
    EndsAmong e.shards span := by
  have fragments : ∀ p ∈ r.regionPieces e, ∀ t, p = .fragment t → EndsAmong e.shards t := by
    refine forall_mem_cut ?_ ?_ ?_ (by simp [ofFragment])
    · rintro s - t ⟨⟩
    · rintro s - t ⟨⟩
    · rintro frag s hs hfrag t ⟨⟩
      cases frag with
      | none => exact ⟨s, hs, s, hs, rfl, rfl⟩
      | some u =>
        obtain ⟨y, hy, -, -, hstart, -⟩ := hfrag (.fragment u) (List.mem_singleton_self _) u rfl
        exact ⟨y, hy, s, hs, hstart, rfl⟩
  exact fragments _ h span rfl

/-- The walk cuts the fragment out of an error that it comes to, in a block that it reads or
elsewhere, and the fragment starts and stops where shards of that error do. -/
def TornFrom (r : Rules) (root : Node) (outer : Option Span) (span : Span) : Prop :=
  ∃ e, (r.Recovers root outer e ∨ ∃ b, r.Reads root outer b ∧ e ∈ b.children) ∧
    e.error = true ∧ .fragment span ∈ r.regionPieces e ∧ EndsAmong e.shards span

/-! ## Fragments in a block -/

/-- The child `c` of the block stands directly behind an error with the open fragment `s`, as far as
members go, and is taken for its terminator. -/
structure Ends (r : Rules) (b : Node) (before : List Node) (s : Span) (c : Node) : Prop where
  behind : r.LeavesOpen b before s
  member : c.isMember = true
  statement : (r.roleIn b c).isStatement = true
  terminator : c.isTerminator = true

/-- An open fragment is one of the fragments of the error in front. -/
theorem LeavesOpen.exists_region (h : r.LeavesOpen b before s) :
    ∃ e ∈ before, e.error = true ∧ .fragment s ∈ r.regionPieces e := by
  obtain ⟨front, e, rest, rfl, -, hrole, hopen, -⟩ := h
  refine ⟨e, by simp, role_eq_recovered_iff.1 hrole, ?_⟩
  simp [regionPieces, hopen, ofFragment]

/-- A fragment of a block is one of an error in it, or it is one with a terminator behind it. -/
theorem fragment_cases (h : .fragment span ∈ r.blockPieces b) :
    (∃ e ∈ b.children, e.error = true ∧ .fragment span ∈ r.regionPieces e) ∨
    ∃ before c after s, b.children = before ++ c :: after ∧ r.Ends b before s c ∧
      span = ⟨s.start, c.stop⟩ := by
  -- A fragment that is open in front of a child, or behind all of them, is one of an error before.
  have opened : ∀ {before after ps run frag}, r.Walks b before ps run frag →
      b.children = before ++ after → .fragment span ∈ ofFragment frag →
      ∃ e ∈ b.children, e.error = true ∧ .fragment span ∈ r.regionPieces e := by
    intro before after ps run frag hwalk hsplit hspan
    cases frag with
    | none => simp [ofFragment] at hspan
    | some t =>
      cases List.mem_singleton.1 hspan
      obtain ⟨e, he, herror, region⟩ := (hwalk.leavesOpen rfl).exists_region
      exact ⟨e, by simp [hsplit, he], herror, region⟩
  have no_run : ∀ {run : Option Run}, .fragment span ∉ ofRun run := by
    intro run
    cases run <;> simp [ofRun]
  rcases mem_blockPieces_cases h with
    ⟨before, c, after, ps, run, frag, qs, run', frag', hsplit, hwalk, htake, hp⟩ |
    ⟨ps, run, frag, hwalk, hp | hp⟩
  · cases htake with
    | pass => simp at hp
    | absorb hm hstatement hterm =>
      cases List.mem_singleton.1 hp
      exact .inr ⟨before, c, after, _, hsplit, ⟨hwalk.leavesOpen rfl, hm, hstatement, hterm⟩, rfl⟩
    | attach | skip => exact .inl (opened hwalk hsplit hp)
    | statement =>
      rcases List.mem_append.1 hp with hp | hp
      · exact .inl (opened hwalk hsplit hp)
      · simp at hp
    | group =>
      simp only [List.mem_append, List.mem_singleton, reduceCtorEq, or_false] at hp
      rcases hp with hp | hp
      · exact .inl (opened hwalk hsplit hp)
      · exact absurd hp no_run
    | recover hm hrole =>
      simp only [List.mem_append] at hp
      rcases hp with hp | hp | hp
      · exact .inl (opened hwalk hsplit hp)
      · exact absurd hp no_run
      · have region : .fragment span ∈ r.regionPieces c := List.mem_append_left _ hp
        exact .inl ⟨c, by simp [hsplit], role_eq_recovered_iff.1 hrole, region⟩
  · exact .inl (opened hwalk (List.append_nil _).symm hp)
  · exact absurd hp no_run

/-- A statement of a block is the terminator of the error in front, or it is a piece of its own. -/
theorem taken_or_made (hsplit : b.children = before ++ c :: after) (hm : c.isMember = true)
    (hstatement : (r.roleIn b c).isStatement = true) :
    (∃ s, r.Ends b before s c ∧ .fragment ⟨s.start, c.stop⟩ ∈ r.blockPieces b) ∨
    ∃ start, .statement start c ∈ r.blockPieces b := by
  obtain ⟨ps, run, frag, qs, run', frag', hwalk, htake, hqs⟩ := exists_takes_of_split hsplit (r := r)
  cases htake with
  | pass hno => simp [hm] at hno
  | absorb _ _ hterm =>
    have hends := Ends.mk (hwalk.leavesOpen rfl) hm hstatement hterm
    exact .inl ⟨_, hends, hqs _ (List.mem_singleton_self _)⟩
  | statement =>
    exact .inr ⟨_, hqs _ (List.mem_append_right _ (List.mem_singleton_self _))⟩
  | attach _ hrole | group _ hrole | recover _ hrole | skip _ hrole =>
    simp [hrole, Role.isStatement] at hstatement

theorem Reads.tornFrom (h : r.Reads root outer b) (he : e ∈ b.children) (herror : e.error = true)
    (hspan : .fragment span ∈ r.regionPieces e) : r.TornFrom root outer span :=
  ⟨e, .inr ⟨b, h, he⟩, herror, hspan, endsAmong_of_mem_regionPieces hspan⟩

theorem Recovers.tornFrom (h : r.Recovers root outer e) (hspan : .fragment span ∈ r.regionPieces e) :
    r.TornFrom root outer span :=
  ⟨e, .inl h, h.error_eq_true, hspan, endsAmong_of_mem_regionPieces hspan⟩

end Rules

namespace Forest

open Rules

variable {f : Forest} {root : Node}

/-- What becomes of errors and of the statements behind them. -/
structure Terminated (f : Forest) (r : Rules) (root : Node) : Prop where
  /-- A statement of the forest is that of a piece. A fragment stops with its error, or with the
  terminator behind the error. -/
  fragments : ∀ i e, f.get? i = some e → ∃ outer p, r.Reaches root outer p ∧ r.Gives p e.record ∧
    ∀ span, p = .fragment span → r.TornFrom root outer span ∨
      ∃ b before c after s, r.Reads root outer b ∧ b.children = before ++ c :: after ∧
        r.Ends b before s c ∧ r.TornFrom root outer s ∧ span = ⟨s.start, c.stop⟩
  /-- A statement of a block that is not taken for a terminator becomes one of its own, or one with
  the statement around the block, and no fragment of the block has text in common with it. -/
  statements : ∀ outer b before c after, r.Reads root outer b → b.children = before ++ c :: after →
    c.isMember = true → (r.roleIn b c).isStatement = true →
    (∃ s, r.Ends b before s c ∧ .fragment ⟨s.start, c.stop⟩ ∈ r.blockPieces b) ∨
    ∃ start ≤ c.start,
      (outer = some ⟨start, c.stop⟩ ∨
        ∃ i e, f.get? i = some e ∧ r.Gives (.statement start c) e.record) ∧
      ∀ span, .fragment span ∈ r.blockPieces b → span.stop ≤ c.start ∨ c.stop ≤ span.start

/-- Whatever the language, when a query covers all of the source, errors take in the terminators
directly behind them and no other statements. -/
theorem terminated_of_ofSketch {l : Language} {n : Nat} {policy : RangePolicy}
    (hroot : root.WellPlaced) (hstop : root.stop ≤ n)
    (h : ofSketch ⟨⟨0, n⟩, policy⟩ (l.rules.sketchRoot root) = .ok f) :
    f.Terminated l.rules root := by
  constructor
  · intro i e he
    obtain ⟨outer, p, hp, hgives⟩ := exists_gives_of_get? h he
    refine ⟨outer, p, hp, hgives, ?_⟩
    rintro span rfl
    rcases hp.source with ⟨b, hb, hpb⟩ | ⟨e, he, hpe⟩ | ⟨n, hn⟩
    · rcases fragment_cases hpb with ⟨e, heb, herror, hpe⟩ |
        ⟨before, c, after, s, hsplit, hends, hspan⟩
      · exact .inl (hb.tornFrom heb herror hpe)
      · obtain ⟨e, heb, herror, hpe⟩ := hends.behind.exists_region
        have torn := hb.tornFrom (by simp [hsplit, heb]) herror hpe
        exact .inr ⟨b, before, c, after, s, hb, hsplit, hends, torn, hspan⟩
    · exact .inl (he.tornFrom hpe)
    · cases hn
  · intro outer b before c after hb hsplit hm hstatement
    have hbw := hb.wellPlaced hroot
    rcases taken_or_made hsplit hm hstatement with taken | ⟨start, hpiece⟩
    · exact .inl taken
    · right
      have laid := laid_blockPieces hbw (r := l.rules)
      obtain ⟨hstart, hsolid⟩ := laid.solid _ hpiece
      have hreach := hb.reaches hpiece
      have hinside := (hroot.below (hreach.node_below rfl)).2.2
      refine ⟨start, hstart, ?_, ?_⟩
      · have hgives : l.rules.Gives (.statement start c)
            ⟨c.kind, ⟨start, c.stop⟩, l.rules.isCompound c, none⟩ := .statement
        have hlt : start < c.stop := Nat.lt_of_le_of_lt hstart hsolid
        exact exists_record_of_reaches hroot h hreach hgives
          (Scope.admits_of_stop_le hlt (Nat.le_trans hinside hstop))
      · intro span hspan
        have hne : Piece.fragment span ≠ .statement start c := by simp
        rcases laid.apart hspan hpiece hne with front | behind
        · exact .inl (Nat.le_trans front hstart)
        · exact .inr behind

theorem wellPlaced_strayRoot : strayRoot.WellPlaced := by decide

theorem terminated_stray : strayRoot.WellPlaced ∧ strayRoot.stop ≤ 19 ∧
    ofSketch ⟨⟨0, 19⟩, .intersecting⟩ (Language.rust.rules.sketchRoot strayRoot) =
      .ok strayForest ∧
    strayForest.Terminated Language.rust.rules strayRoot :=
  ⟨wellPlaced_strayRoot, Nat.le_refl 19, ofSketch_stray,
    terminated_of_ofSketch wellPlaced_strayRoot (Nat.le_refl 19) ofSketch_stray⟩

/-- An identifier of one byte is taken for a terminator, although it is no semicolon. -/
theorem not_forall_semicolon : ¬ ∀ (l : Language) (source : List Char) (root : Node) (f : Forest),
    root.WellPlaced → root.stop ≤ Text.totalBytes source →
    ofSketch ⟨⟨0, Text.totalBytes source⟩, .intersecting⟩ (l.rules.sketchRoot root) = .ok f →
    ∀ outer b before c after s, l.rules.Reads root outer b → b.children = before ++ c :: after →
      l.rules.Ends b before s c → .fragment ⟨s.start, c.stop⟩ ∈ l.rules.blockPieces b →
      Text.slice? source c.start c.stop = some [';'] := by
  intro h
  let source : List Char := ['f', 'n', ' ', 'f', '(', ')', ' ', '\x7b', ' ', 'a', '(', ')', ';', ' ',
    ')', ' ', 'x', ' ', '\x7d']
  have hread : Language.rust.rules.Reads strayRoot (some ⟨0, 19⟩) strayBlock :=
    .part (.top (List.mem_singleton_self _)) isCompound_strayFunction
      (by rw [partsOf_strayFunction]; exact List.mem_singleton_self _)
  have hbehind : Language.rust.rules.LeavesOpen strayBlock
      [token "\x7b" 7, callStatement, strayError] ⟨14, 15⟩ :=
    ⟨[token "\x7b" 7, callStatement], strayError, [], rfl, rfl, rfl, rfl, by simp⟩
  have hends : Language.rust.rules.Ends strayBlock
      [token "\x7b" 7, callStatement, strayError] ⟨14, 15⟩ (identifier none 16) :=
    ⟨hbehind, rfl, rfl, rfl⟩
  have hpiece : .fragment ⟨14, 17⟩ ∈ Language.rust.rules.blockPieces strayBlock := by
    simp [blockPieces_strayBlock]
  have semicolon := h .rust source strayRoot strayForest wellPlaced_strayRoot (by decide)
    ofSketch_stray _ strayBlock _ _ [token "\x7d" 18] _ hread rfl hends hpiece
  have found : Text.slice? source 16 17 = some ['x'] := by decide
  exact absurd (found.symm.trans semicolon) (by decide)

end Forest

end StatementOutline
