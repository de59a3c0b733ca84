import StatementOutline.Grammar.Profile
import StatementOutline.Proofs.Placement
import StatementOutline.Proofs.Places

/-!
# The parts of a body stand side by side

However deep in clauses and wrappers the parts of a body are found, each is taken from a place of
its own, and none is taken from inside another one. This holds of every body, also of those that no
language has.

* `Row.pairwise`: spans that follow one another end before the later ones start;
* `Rules.beside_parts`: the places of the parts;
* `Rules.parts_apart`: what the parts of a body are and how they lie.
-/

namespace StatementOutline

open Node

/-- Each span of a row ends before the later ones start. -/
theorem Row.pairwise {lo hi : Nat} {ss : List Span} (h : Row lo hi ss) :
    ss.Pairwise fun s t => s.stop ≤ t.start := by
  induction ss generalizing lo with
  | nil => exact .nil
  | cons s ss ih =>
    obtain ⟨-, -, later⟩ := h
    exact .cons (fun t ht => (later.of_mem ht).1) (ih later)

namespace Rules

variable {r : Rules} {n c : Node} {p : Part} {b : Body}

theorem beside_part (p : Part) (hp : p.node = n) : Beside n ([p].map Part.node) := by
  subst hp
  exact beside_self p.node

mutual
/-- What a piece of a body comes to stands side by side in it. -/
theorem beside_collect (r : Rules) : ∀ n : Node, Beside n ((r.collect n).map Part.node)
  | .mk l cs => by
    unfold collect
    split
    · exact beside_part _ rfl
    · split
      · exact beside_part _ rfl
      · split
        · exact BesideAll.beside (n := .mk l cs) (besideAll_collectAll r cs)
        · split
          · exact beside_part _ rfl
          · exact beside_nil _

theorem besideAll_collectAll (r : Rules) : ∀ cs : List Node,
    BesideAll cs ((r.collectAll cs).map Part.node)
  | [] => besideAll_nil []
  | c :: cs => by
    unfold collectAll
    rw [List.map_append]
    have first :
        Beside c ((if c.isSolid && !c.inHeader then r.collect c else []).map Part.node) := by
      split
      · exact beside_collect r c
      · exact beside_nil c
    exact first.cons (besideAll_collectAll r cs)
end

theorem beside_collectField (r : Rules) (names : List String) (c : Node) :
    Beside c ((r.collectField names c).map Part.node) := by
  unfold collectField
  split
  · exact beside_nil c
  · split
    · exact beside_self c
    · split
      · exact beside_collect r c
      · split
        · exact beside_nil c
        · split
          · exact beside_collect r c
          · exact beside_nil c

/-- The parts of a body stand side by side in the node. -/
theorem beside_parts (r : Rules) (n : Node) (b : Body) :
    Beside n ((r.parts n b).map Part.node) := by
  fun_induction parts r n b with
  | case1 n => exact beside_nil n
  | case2 n => exact beside_self n
  | case3 n names =>
    rw [List.map_flatMap]
    exact (besideAll_flatMap fun c _ => beside_collectField r names c).beside
  | case4 n =>
    cases ht : n.lastBodyChild? with
    | none => exact beside_nil n
    | some c =>
      have htarget : n.target? none = some c := ht
      exact (beside_collect r c).of_child (mem_children_of_target? htarget)
  | case5 n steps =>
    cases he : (n.follow? steps).filter fun e => r.isBlock e.kind with
    | none => exact beside_nil n
    | some e =>
      obtain rfl | hb := below_of_follow? (Option.filter_eq_some_iff.1 he).1
      · exact beside_self e
      · exact (beside_self e).of_below hb
  | case6 n => exact beside_nil n
  | case7 n field c hc _ _ => exact (beside_self c).of_child (mem_children_of_target? hc)
  | case8 n => exact beside_nil n
  | case9 n field c hc _ _ body _ ih => exact ih.of_child (mem_children_of_target? hc)

theorem below_of_child (hc : c ∈ n.children) (h : p.node = c ∨ Below p.node c) :
    Below p.node n := by
  have hcn : Below c n := .child hc
  obtain h | h := h
  · exact h ▸ hcn
  · exact h.trans hcn

/-- Parts lie below the node, except that the node itself is the part of a body that is its own
children or that an empty path leads to. -/
theorem mem_parts_cases (h : p ∈ r.parts n b) :
    p = .block n ∧ (b = .members ∨ b = .path []) ∨ Below p.node n := by
  cases b with
  | simple => simp [parts] at h
  | members => exact .inl ⟨by simpa [parts] using h, .inl rfl⟩
  | fields names =>
    rw [parts] at h
    obtain ⟨c, hc, hp⟩ := List.mem_flatMap.1 h
    exact .inr (below_of_child hc (below_of_mem_collectField hp))
  | tail =>
    rw [parts] at h
    cases ht : n.target? none with
    | none =>
      have hlast : n.lastBodyChild? = none := ht
      simp [hlast] at h
    | some c =>
      have hlast : n.lastBodyChild? = some c := ht
      have hp : p ∈ r.collect c := by simpa [hlast] using h
      exact .inr (below_of_child (mem_children_of_target? ht) (below_of_mem_collect hp))
  | target field =>
    rw [parts_target] at h
    cases ht : n.target? field with
    | none => simp [ht] at h
    | some c =>
      have hc := mem_children_of_target? ht
      rw [ht, Option.map_some, Option.getD_some] at h
      split at h
      · obtain rfl := List.mem_singleton.1 h
        exact .inr (.child hc)
      · obtain rfl | hp := below_of_mem_partsOf h
        · exact .inr (.child hc)
        · exact .inr (below_of_child hc (.inr hp))
  | path steps =>
    cases steps with
    | nil =>
      obtain rfl | hp := below_of_mem_parts h
      · exact .inl ⟨rfl, .inr rfl⟩
      · exact .inr hp
    | cons name names =>
      simp only [parts, List.mem_map, Option.mem_toList, Option.filter_eq_some_iff] at h
      obtain ⟨e, ⟨he, -⟩, rfl⟩ := h
      rw [follow?] at he
      split at he
      · simp at he
      · next c hc =>
        exact .inr (below_of_child (mem_children_of_step? hc) (below_of_follow? he))

/-- Each part of a body is the node itself, as a block, or lies below it; the parts stand at places
of their own, one behind the other and none below another, and none starts before the ones in front
of it have ended. -/
theorem parts_apart (r : Rules) (hn : n.WellPlaced) (b : Body) :
    (∀ p ∈ r.parts n b, p = .block n ∧ (b = .members ∨ b = .path []) ∨ Below p.node n) ∧
    (∃ places : List (List Nat),
      places.map n.at? = (r.parts n b).map (fun p => some p.node) ∧
      places.Pairwise fun p q => p < q ∧ ¬ p <+: q ∧ ¬ q <+: p) ∧
    (r.parts n b).Pairwise fun p q => p.node.stop ≤ q.node.start := by
  refine ⟨fun p hp => mem_parts_cases hp, ?_, ?_⟩
  · obtain ⟨places, stand, before⟩ := beside_parts r n b
    exact ⟨places, by rw [stand, List.map_map]; rfl, before⟩
  · exact List.pairwise_map.1 (row_parts hn).pairwise

/-- What is done in a branch of a conditional. -/
def consequence (start : Nat) : Node :=
  .mk ⟨"then", some "consequence", ⟨start, start + 3⟩, true, false, false, false, false⟩ [
    .mk ⟨"identifier", none, ⟨start + 2, start + 3⟩, true, false, false, false, false⟩ []]

/-- A further branch, in which the ones behind it are nested. -/
def furtherBranch (start stop : Nat) (behind : List Node) : Node :=
  .mk ⟨"elsif", some "alternative", ⟨start, stop⟩, true, false, false, false, false⟩ ([
    .mk ⟨"elsif", none, ⟨start, start + 5⟩, false, false, false, false, false⟩ [],
    .mk ⟨"identifier", some "condition", ⟨start + 6, start + 7⟩, true, false, false, false, false⟩
      [],
    consequence (start + 7)] ++ behind)

def branches : Node :=
  .mk ⟨"if", none, ⟨0, 33⟩, true, false, false, false, false⟩ [
    .mk ⟨"if", none, ⟨0, 2⟩, false, false, false, false, false⟩ [],
    .mk ⟨"identifier", some "condition", ⟨3, 4⟩, true, false, false, false, false⟩ [],
    consequence 4,
    furtherBranch 8 29 [furtherBranch 19 29 []],
    .mk ⟨"end", none, ⟨30, 33⟩, false, false, false, false, false⟩ []]

theorem parts_branches :
    Language.ruby.rules.parts branches (.fields ["consequence", "alternative"]) =
      [.block (consequence 4), .block (consequence 15), .block (consequence 26)] := by
  rw [parts]
  rfl

theorem parts_apart_branches : branches.WellPlaced ∧ ∃ places : List (List Nat),
    places.map branches.at? = [some (consequence 4), some (consequence 15), some (consequence 26)] ∧
    places.Pairwise fun p q => p < q ∧ ¬ p <+: q ∧ ¬ q <+: p := by
  have placed : branches.WellPlaced := by decide
  obtain ⟨-, places, -⟩ :=
    parts_apart Language.ruby.rules placed (.fields ["consequence", "alternative"])
  rw [parts_branches] at places
  exact ⟨placed, places⟩

/-- The members are not the only body of which the node itself can be a part: a path without steps
leads nowhere else. -/
theorem not_forall_part_below : ¬ ∀ (l : Language) (n : Node) (b : Body), n.WellPlaced →
    ∀ p ∈ l.rules.parts n b, p.node = n ∧ b = .members ∨ Below p.node n := by
  intro h
  have placed : (consequence 0).WellPlaced := by decide
  have itself : Part.block (consequence 0) ∈
      Language.ruby.rules.parts (consequence 0) (.path []) := by
    rw [parts]
    exact List.mem_singleton_self _
  obtain ⟨-, members⟩ | below := h .ruby (consequence 0) (.path []) placed _ itself
  · cases members
  · exact absurd below.sizeOf_lt (Nat.lt_irrefl _)

end Rules

end StatementOutline
