import Mathlib.Data.List.Induction
import StatementOutline.Proofs.Reach

/-!
# The walk over the members of a block

The children of a block are taken one after the other. In between, attachments may wait for the
statement behind them, or the last fragment of an error may wait for a terminator, but not both.

* `Takes`: what the walk does at one child;
* `Walks`, `exists_walks`: the walk up to some child;
* `Walks.waits`, `Walks.leavesOpen`: what is open in front of a child, read off the children
  before it;
* `mem_blockPieces_cases`: the child at which a piece of a block is made;
* `Reaches.source`: the block or the error of which a piece that the walk comes to is one.
-/

namespace StatementOutline

namespace Rules

open Piece

variable {r : Rules} {run : Option Run} {frag : Option Span} {b c : Node}
  {cs before after : List Node} {ps : List Piece} {p : Piece}

/-- The role of a child in the block. -/
def roleIn (r : Rules) (b c : Node) : Role :=
  r.role c.kind c.error (r.isContainer b.kind)

/-- What the walk over the members of the block does at the child `c`: given the attachments and the
fragment that are open in front of it, the pieces that it makes and what is open behind. -/
inductive Takes (r : Rules) (b : Node) :
    Option Run → Option Span → Node → List Piece → Option Run → Option Span → Prop
  /-- No member: nothing changes. -/
  | pass {run : Option Run} {frag : Option Span} {c : Node} : c.isMember = false →
      Takes r b run frag c [] run frag
  /-- A terminator is joined to the open fragment. -/
  | absorb {run : Option Run} {s : Span} {c : Node} : c.isMember = true →
      (r.roleIn b c).isStatement = true → c.isTerminator = true →
      Takes r b run (some s) c [.fragment (joinFragment (some s) c)] run none
  | attach {run : Option Run} {frag : Option Span} {c : Node} : c.isMember = true →
      r.roleIn b c = .attachment →
      Takes r b run frag c (ofFragment frag) (some (joinRun run c)) none
  | statement {run : Option Run} {frag : Option Span} {c : Node} {body : Body} :
      c.isMember = true → r.roleIn b c = .statement body →
      (frag.isSome = true → c.isTerminator = false) →
      Takes r b run frag c (ofFragment frag ++ [.statement (startAfter run c) c]) none none
  | group {run : Option Run} {frag : Option Span} {c : Node} : c.isMember = true →
      r.roleIn b c = .transparent →
      Takes r b run frag c (ofFragment frag ++ (ofRun run ++ [.group c])) none none
  /-- An error is cut, and its last fragment stays open. -/
  | recover {run : Option Run} {frag : Option Span} {c : Node} : c.isMember = true →
      r.roleIn b c = .recovered →
      Takes r b run frag c (ofFragment frag ++ (ofRun run ++ (r.cut none c.shards).1)) none
        (r.cut none c.shards).2
  /-- A skipped member closes the fragment, but the attachments go on waiting. -/
  | skip {run : Option Run} {frag : Option Span} {c : Node} : c.isMember = true →
      r.roleIn b c = .skipped → Takes r b run frag c (ofFragment frag) run none

/-- At every child the walk does one of these things. -/
theorem exists_takes (r : Rules) (b : Node) (run : Option Run) (frag : Option Span) (c : Node) :
    ∃ ps run' frag', r.Takes b run frag c ps run' frag' ∧ ∀ cs,
      r.members (r.isContainer b.kind) run frag (c :: cs) =
        ps ++ r.members (r.isContainer b.kind) run' frag' cs := by
  by_cases hm : c.isMember = true
  · by_cases ht : (frag.isSome && (r.roleIn b c).isStatement && c.isTerminator) = true
    · obtain ⟨⟨hopen, hstatement⟩, hterm⟩ : (frag.isSome = true ∧
          (r.roleIn b c).isStatement = true) ∧ c.isTerminator = true := by simpa using ht
      obtain ⟨s, rfl⟩ := Option.isSome_iff_exists.1 hopen
      refine ⟨_, _, _, .absorb hm hstatement hterm, fun cs => ?_⟩
      rw [members, if_pos hm]
      exact if_pos ht
    · cases hrole : r.role c.kind c.error (r.isContainer b.kind) with
      | statement body =>
        have open_only : frag.isSome = true → c.isTerminator = false := fun hopen => by
          simpa [hopen, roleIn, hrole, Role.isStatement] using ht
        refine ⟨_, _, _, .statement hm hrole open_only, fun cs => ?_⟩
        have hkept : (frag.isSome && c.isTerminator) = false := by
          cases hopen : frag.isSome with
          | false => rfl
          | true => exact open_only hopen
        simp [members, hm, hrole, Role.isStatement, hkept]
      | attachment =>
        refine ⟨_, _, _, .attach hm hrole, fun cs => ?_⟩
        simp [members, hm, hrole, Role.isStatement]
      | transparent =>
        refine ⟨_, _, _, .group hm hrole, fun cs => ?_⟩
        simp [members, hm, hrole, Role.isStatement]
      | recovered =>
        refine ⟨_, _, _, .recover hm hrole, fun cs => ?_⟩
        simp [members, hm, hrole, Role.isStatement]
      | skipped =>
        refine ⟨_, _, _, .skip hm hrole, fun cs => ?_⟩
        simp [members, hm, hrole, Role.isStatement]
  · refine ⟨_, _, _, .pass (by simpa using hm), fun cs => ?_⟩
    rw [members, if_neg hm, List.nil_append]

/-- The walk over the members of the block has taken the children `before`, has made the pieces, and
has the attachments and the fragment open. -/
inductive Walks (r : Rules) (b : Node) :
    List Node → List Piece → Option Run → Option Span → Prop
  | start : Walks r b [] [] none none
  | next {before : List Node} {ps qs : List Piece} {run run' : Option Run}
      {frag frag' : Option Span} {c : Node} : Walks r b before ps run frag →
      r.Takes b run frag c qs run' frag' → Walks r b (before ++ [c]) (ps ++ qs) run' frag'

/-- Whatever children come first, the walk takes them and goes on with the others. -/
theorem exists_walks (r : Rules) (b : Node) (before : List Node) :
    ∃ ps run frag, r.Walks b before ps run frag ∧ ∀ after,
      r.members (r.isContainer b.kind) none none (before ++ after) =
        ps ++ r.members (r.isContainer b.kind) run frag after := by
  induction before using List.reverseRecOn with
  | nil => exact ⟨[], none, none, .start, fun _ => rfl⟩
  | append_singleton before c ih =>
    obtain ⟨ps, run, frag, earlier, hps⟩ := ih
    obtain ⟨qs, run', frag', htake, hqs⟩ := r.exists_takes b run frag c
    refine ⟨ps ++ qs, run', frag', .next earlier htake, fun after => ?_⟩
    rw [List.append_assoc, List.singleton_append, hps, hqs, List.append_assoc]

/-! ## What is open -/

/-- The children begin with an attachment, all members among them are attachments or skipped, and
the run covers the attachments from the first to the last. -/
structure Strings (r : Rules) (b : Node) (cs : List Node) (run : Run) : Prop where
  first : ∃ a rest, cs = a :: rest ∧ a.isMember = true ∧ r.roleIn b a = .attachment ∧
    run.kind = a.kind ∧ run.span.start = a.start
  last : ∃ z ∈ cs, z.isMember = true ∧ r.roleIn b z = .attachment ∧ run.span.stop = z.stop
  only : ∀ d ∈ cs, d.isMember = true → r.roleIn b d = .attachment ∨ r.roleIn b d = .skipped

theorem strings_singleton (hm : c.isMember = true) (hc : r.roleIn b c = .attachment) :
    r.Strings b [c] ⟨c.kind, c.span⟩ := by
  refine ⟨⟨c, [], rfl, hm, hc, rfl, rfl⟩, ⟨c, by simp, hm, hc, rfl⟩, ?_⟩
  intro d hd _
  obtain rfl := List.mem_singleton.1 hd
  exact .inl hc

theorem Strings.snoc {rn : Run} (h : r.Strings b cs rn) (hm : c.isMember = true)
    (hc : r.roleIn b c = .attachment) : r.Strings b (cs ++ [c]) (joinRun (some rn) c) := by
  obtain ⟨a, rest, rfl, ham, ha, hkind, hstart⟩ := h.first
  refine ⟨⟨a, rest ++ [c], rfl, ham, ha, hkind, hstart⟩, ⟨c, by simp, hm, hc, rfl⟩, ?_⟩
  intro d hd hdm
  rcases List.mem_append.1 hd with hd | hd
  · exact h.only d hd hdm
  · obtain rfl := List.mem_singleton.1 hd
    exact .inl hc

theorem Strings.pass {rn : Run} (h : r.Strings b cs rn)
    (hc : c.isMember = true → r.roleIn b c = .skipped) : r.Strings b (cs ++ [c]) rn := by
  obtain ⟨a, rest, rfl, ham, ha, hkind, hstart⟩ := h.first
  obtain ⟨z, hz, hlast⟩ := h.last
  refine ⟨⟨a, rest ++ [c], rfl, ham, ha, hkind, hstart⟩,
    ⟨z, List.mem_append_left _ hz, hlast⟩, ?_⟩
  intro d hd hdm
  rcases List.mem_append.1 hd with hd | hd
  · exact h.only d hd hdm
  · obtain rfl := List.mem_singleton.1 hd
    exact .inr (hc hdm)

/-- The last children begin with an attachment, and no statement has followed since. -/
def Waits (r : Rules) (b : Node) (before : List Node) (run : Run) : Prop :=
  ∃ front cs, before = front ++ cs ∧ r.Strings b cs run

/-- The last member among the children is an error with an open fragment. -/
def LeavesOpen (r : Rules) (b : Node) (before : List Node) (s : Span) : Prop :=
  ∃ front e rest, before = front ++ e :: rest ∧ e.isMember = true ∧ r.roleIn b e = .recovered ∧
    (r.cut none e.shards).2 = some s ∧ ∀ d ∈ rest, d.isMember = false

theorem Waits.pass {rn : Run} (h : r.Waits b before rn)
    (hc : c.isMember = true → r.roleIn b c = .skipped) : r.Waits b (before ++ [c]) rn := by
  obtain ⟨front, cs, rfl, hcs⟩ := h
  exact ⟨front, cs ++ [c], by rw [List.append_assoc], hcs.pass hc⟩

/-- While attachments wait no fragment is open, and they stand among the last children. -/
theorem Walks.waits {rn : Run} (h : r.Walks b before ps run frag) (hrun : run = some rn) :
    frag = none ∧ r.Waits b before rn := by
  induction h generalizing rn with
  | start => cases hrun
  | @next before ps qs run run' frag frag' c earlier htake ih =>
    cases htake with
    | pass hm =>
      obtain ⟨hfrag, hwaits⟩ := ih hrun
      exact ⟨hfrag, hwaits.pass fun hm' => by simp [hm] at hm'⟩
    | absorb => exact absurd (ih hrun).1 (by simp)
    | attach hm hc =>
      obtain rfl := Option.some.inj hrun
      refine ⟨rfl, ?_⟩
      cases run with
      | none => exact ⟨before, [c], rfl, strings_singleton hm hc⟩
      | some rn =>
        obtain ⟨front, cs, rfl, hcs⟩ := (ih rfl).2
        exact ⟨front, cs ++ [c], by rw [List.append_assoc], hcs.snoc hm hc⟩
    | statement | group | recover => cases hrun
    | skip hm hc => exact ⟨rfl, (ih hrun).2.pass fun _ => hc⟩

/-- An open fragment belongs to the error in front. -/
theorem Walks.leavesOpen {s : Span} (h : r.Walks b before ps run frag) (hfrag : frag = some s) :
    r.LeavesOpen b before s := by
  induction h generalizing s with
  | start => cases hfrag
  | @next before ps qs run run' frag frag' c earlier htake ih =>
    cases htake with
    | pass hm =>
      obtain ⟨front, e, rest, rfl, hem, he, hopen, hrest⟩ := ih hfrag
      refine ⟨front, e, rest ++ [c], by simp, hem, he, hopen, fun d hd => ?_⟩
      rcases List.mem_append.1 hd with hd | hd
      · exact hrest d hd
      · obtain rfl := List.mem_singleton.1 hd
        exact hm
    | recover hm hc => exact ⟨before, c, [], rfl, hm, hc, hfrag, by simp⟩
    | absorb | attach | statement | group | skip => cases hfrag

/-! ## Where pieces are made -/

/-- A piece of a block is made at one of the children, or else it is open behind all of them. -/
theorem mem_blockPieces_cases (h : p ∈ r.blockPieces b) :
    (∃ before c after ps run frag qs run' frag', b.children = before ++ c :: after ∧
      r.Walks b before ps run frag ∧ r.Takes b run frag c qs run' frag' ∧ p ∈ qs) ∨
    ∃ ps run frag, r.Walks b b.children ps run frag ∧ (p ∈ ofFragment frag ∨ p ∈ ofRun run) := by
  -- Either the walk over all children has made the piece, or it is still open.
  obtain ⟨ps, run, frag, hwalk, hps⟩ := r.exists_walks b b.children
  have hall : r.blockPieces b = ps ++ (ofFragment frag ++ ofRun run) := by
    simpa [blockPieces, members] using hps []
  rw [hall, List.mem_append, List.mem_append] at h
  rcases h with h | h
  · left
    have made : ∀ {before ps run frag}, r.Walks b before ps run frag → p ∈ ps →
        ∃ front c back ps run frag qs run' frag', before = front ++ c :: back ∧
          r.Walks b front ps run frag ∧ r.Takes b run frag c qs run' frag' ∧ p ∈ qs := by
      intro before ps run frag hwalk hp
      induction hwalk with
      | start => simp at hp
      | @next before ps qs run run' frag frag' c earlier htake ih =>
        rcases List.mem_append.1 hp with hp | hp
        · obtain ⟨front, d, back, _, _, _, _, _, _, rfl, hfront, hd, hpd⟩ := ih hp
          exact ⟨front, d, back ++ [c], _, _, _, _, _, _, by simp, hfront, hd, hpd⟩
        · exact ⟨before, c, [], _, _, _, _, _, _, rfl, earlier, htake, hp⟩
    exact made hwalk h
  · exact .inr ⟨ps, run, frag, hwalk, h⟩

/-- What the walk makes at a child is among the pieces of the block. -/
theorem exists_takes_of_split (hsplit : b.children = before ++ c :: after) :
    ∃ ps run frag qs run' frag', r.Walks b before ps run frag ∧
      r.Takes b run frag c qs run' frag' ∧ ∀ p ∈ qs, p ∈ r.blockPieces b := by
  obtain ⟨ps, run, frag, hwalk, hps⟩ := r.exists_walks b before
  obtain ⟨qs, run', frag', htake, hqs⟩ := r.exists_takes b run frag c
  refine ⟨ps, run, frag, qs, run', frag', hwalk, htake, fun p hp => ?_⟩
  rw [blockPieces, hsplit, hps, hqs]
  simp [hp]

/-! ## What the walk reads -/

/-- The walk over the tree reads the children of the block as members, and the innermost statement
around it has the span. -/
inductive Reads (r : Rules) (root : Node) : Option Span → Node → Prop
  | root : root.error = false → Reads r root none root
  | group {outer : Option Span} {b : Node} : r.Reaches root outer (.group b) → Reads r root outer b
  | block {outer : Option Span} {b : Node} : r.Reaches root outer (.block b) → Reads r root outer b
  | part {outer : Option Span} {start : Nat} {n b : Node} :
      r.Reaches root outer (.statement start n) → r.isCompound n = true →
      .block b ∈ r.partsOf n → Reads r root (some ⟨start, n.stop⟩) b

/-- The walk over the tree recovers statements from the error, which is no member of a block. -/
inductive Recovers (r : Rules) (root : Node) : Option Span → Node → Prop
  | root : root.error = true → Recovers r root none root
  | part {outer : Option Span} {start : Nat} {n e : Node} :
      r.Reaches root outer (.statement start n) → r.isCompound n = true →
      .recovered e ∈ r.partsOf n → Recovers r root (some ⟨start, n.stop⟩) e

variable {root e n : Node} {outer : Option Span}

/-! Only errors are recovered from. -/

mutual
theorem error_of_mem_collect : ∀ {n : Node}, .recovered e ∈ r.collect n → e.error = true
  | .mk l cs, h => by
    unfold collect at h
    split at h
    · next herror =>
      cases List.mem_singleton.1 h
      exact herror
    split at h
    · simp at h
    split at h
    · exact error_of_mem_collectAll h
    split at h <;> simp at h

theorem error_of_mem_collectAll : ∀ {cs : List Node}, .recovered e ∈ r.collectAll cs →
    e.error = true
  | [], h => by simp [collectAll] at h
  | c :: cs, h => by
    unfold collectAll at h
    rcases List.mem_append.1 h with h | h
    · split at h
      · exact error_of_mem_collect h
      · simp at h
    · exact error_of_mem_collectAll h
end

theorem error_of_mem_collectField {names : List String} (h : .recovered e ∈ r.collectField names c) :
    e.error = true := by
  unfold collectField at h
  split at h
  · simp at h
  split at h
  · next herror =>
    cases List.mem_singleton.1 h
    exact herror
  split at h
  · exact error_of_mem_collect h
  split at h
  · simp at h
  split at h
  · exact error_of_mem_collect h
  · simp at h

theorem error_of_mem_parts {body : Body} (h : .recovered e ∈ r.parts n body) : e.error = true := by
  fun_induction parts r n body with
  | case1 => simp at h
  | case2 => simp at h
  | case3 n names =>
    obtain ⟨c, -, hc⟩ := List.mem_flatMap.1 h
    exact error_of_mem_collectField hc
  | case4 n =>
    cases hlast : n.lastBodyChild? with
    | none => simp [hlast] at h
    | some c =>
      rw [hlast] at h
      exact error_of_mem_collect (n := c) h
  | case5 => simp at h
  | case6 => simp at h
  | case7 => simp at h
  | case8 => simp at h
  | case9 _ _ _ _ _ _ _ _ ih => exact ih h

theorem Recovers.error_eq_true (h : r.Recovers root outer e) : e.error = true := by
  cases h with
  | root hroot => exact hroot
  | part _ _ hpart =>
    unfold partsOf at hpart
    split at hpart
    · simp at hpart
    · exact error_of_mem_parts hpart

theorem mem_inner_of_mem_partPieces {start : Nat} {part : Part} (hc : r.isCompound n = true)
    (hpart : part ∈ r.partsOf n) (hp : p ∈ r.partPieces part) :
    p ∈ r.inner (.statement start n) := by
  rw [inner, if_pos hc]
  exact List.mem_flatMap.2 ⟨part, hpart, hp⟩

theorem Reads.reaches (h : r.Reads root outer b) (hp : p ∈ r.blockPieces b) :
    r.Reaches root outer p := by
  cases h with
  | root hroot =>
    refine .top ?_
    rw [rootPieces, hroot]
    exact hp
  | group hb | block hb => exact .nested hb hp
  | part hn hc hpart => exact .nested hn (mem_inner_of_mem_partPieces hc hpart hp)

/-- A piece that the walk comes to is made in a block or in an error, or it stands in place of a
block. -/
theorem Reaches.source (h : r.Reaches root outer p) :
    (∃ b, r.Reads root outer b ∧ p ∈ r.blockPieces b) ∨
    (∃ e, r.Recovers root outer e ∧ p ∈ r.regionPieces e) ∨
    ∃ n, p = .statement n.start n := by
  cases h with
  | top hp =>
    rw [rootPieces] at hp
    split at hp
    · next hroot => exact .inr (.inl ⟨root, .root hroot, hp⟩)
    · next hroot => exact .inl ⟨root, .root (by simpa using hroot), hp⟩
  | @nested outer q _ hq hp =>
    cases q with
    | statement start n =>
      rw [inner] at hp
      split at hp
      · next hc =>
        obtain ⟨part, hpart, hp⟩ := List.mem_flatMap.1 hp
        cases part with
        | block b => exact .inl ⟨b, .part hq hc hpart, hp⟩
        | inline s => exact .inr (.inr ⟨s, List.mem_singleton.1 hp⟩)
        | recovered e => exact .inr (.inl ⟨e, .part hq hc hpart, hp⟩)
      · simp at hp
    | group b => exact .inl ⟨b, .group hq, hp⟩
    | block b => exact .inl ⟨b, .block hq, hp⟩
    | fragment | attachments => simp [inner] at hp

/-- What is part of a statement that the walk comes to lies below the root. -/
theorem Reaches.part_below {start : Nat} {part : Part} (h : r.Reaches root outer (.statement start n))
    (hpart : part ∈ r.partsOf n) : Node.Below part.node root := by
  have hn := h.node_below rfl
  rcases below_of_mem_partsOf hpart with rfl | hb
  · exact hn
  · exact hb.trans hn

/-- The block is the root or lies below it. -/
theorem Reads.mem_preorder (h : r.Reads root outer b) : b ∈ root.preorder := by
  cases h with
  | root => exact Node.mem_preorder_self _
  | group hb | block hb => exact (hb.node_below rfl).mem_preorder
  | part hn _ hpart => exact (hn.part_below hpart).mem_preorder

theorem Reads.wellPlaced (h : r.Reads root outer b) (hroot : root.WellPlaced) : b.WellPlaced :=
  (hroot.of_mem_preorder h.mem_preorder).1

/-- The error is the root or lies below it. -/
theorem Recovers.mem_preorder (h : r.Recovers root outer e) : e ∈ root.preorder := by
  cases h with
  | root => exact Node.mem_preorder_self _
  | part hn _ hpart => exact (hn.part_below hpart).mem_preorder

theorem Recovers.reaches (h : r.Recovers root outer e) (hp : p ∈ r.regionPieces e) :
    r.Reaches root outer p := by
  cases h with
  | root hroot =>
    refine .top ?_
    rw [rootPieces, hroot]
    exact hp
  | part hn hc hpart => exact .nested hn (mem_inner_of_mem_partPieces hc hpart hp)

end Rules

end StatementOutline
