import Mathlib.Data.List.Induction
import StatementOutline.Proofs.Layout

/-!
# Errors in pieces

Errors may stand in errors. The fragment that is open in front of an inner error goes on inside, and
the one that is open at the end of the inner error goes on behind it. So it makes no difference how
the shards of an error are nested: each statement and each block among them is a piece, and between
them each longest run of the other shards is one fragment.

* `tear_eq_cut`: going into the inner errors, fragment in hand, cuts the shards;
* `FallsInto`, `fallsInto_iff`: the pieces of an error, told without a walk;
* `FallsInto.whole_mem`, `FallsInto.exists_fragment`: no shard is lost.
-/

namespace StatementOutline

namespace Rules

open Piece

variable {r : Rules} {frag : Option Span} {t : Span} {c first last n : Node}
  {cs ss ts : List Node} {p : Piece} {ps : List Piece} {lo hi : Nat}

/-- The shard is neither a statement nor a block. -/
def isLoose (r : Rules) (c : Node) : Bool :=
  !(c.named && (r.isStatement c.kind || r.isBlock c.kind))

/-- The piece that a statement or a block comes to by itself. -/
def whole (r : Rules) (c : Node) : Piece :=
  if r.isStatement c.kind then .statement c.start c else .block c

theorem isLoose_eq_false_iff : r.isLoose c = false ↔
    c.named = true ∧ (r.isStatement c.kind = true ∨ r.isBlock c.kind = true) := by
  simp only [isLoose, Bool.not_eq_false', Bool.and_eq_true, Bool.or_eq_true]

theorem whole_of_isStatement (h : r.isStatement c.kind = true) :
    r.whole c = .statement c.start c :=
  if_pos h

theorem whole_of_not_isStatement (h : r.isStatement c.kind = false) : r.whole c = .block c :=
  if_neg (by simp [h])

theorem whole_ne_fragment (r : Rules) (c : Node) (t : Span) : r.whole c ≠ .fragment t := by
  unfold whole
  split <;> simp

@[simp]
theorem span_whole (r : Rules) (c : Node) : (r.whole c).span = c.span := by
  unfold whole
  split <;> rfl

/-! ## Cutting -/

@[simp]
theorem cut_nil : r.cut frag [] = ([], frag) := by
  rw [cut]

/-- A loose shard goes on with the open fragment. -/
theorem cut_cons_of_loose (h : r.isLoose c = true) :
    r.cut frag (c :: cs) = r.cut (some (joinFragment frag c)) cs := by
  have loose : ¬ (c.named = true ∧ (r.isStatement c.kind = true ∨ r.isBlock c.kind = true)) :=
    fun hc => by simp [isLoose_eq_false_iff.2 hc] at h
  rw [cut, if_neg, if_neg]
  · intro hb
    rw [Bool.and_eq_true] at hb
    exact loose ⟨hb.1, .inr hb.2⟩
  · intro hs
    rw [Bool.and_eq_true] at hs
    exact loose ⟨hs.1, .inl hs.2⟩

/-- Any other shard closes it. -/
theorem cut_cons_of_not_loose (h : r.isLoose c = false) :
    r.cut frag (c :: cs) =
      (ofFragment frag ++ r.whole c :: (r.cut none cs).1, (r.cut none cs).2) := by
  obtain ⟨hnamed, hkind⟩ := isLoose_eq_false_iff.1 h
  cases hs : r.isStatement c.kind with
  | true => simp [cut, whole, hnamed, hs]
  | false =>
    have hb : r.isBlock c.kind = true := by simpa [hs] using hkind
    simp [cut, whole, hnamed, hs, hb]

/-- What is open behind the first shards is open in front of the others. -/
theorem cut_append : r.cut frag (ss ++ ts) =
    ((r.cut frag ss).1 ++ (r.cut (r.cut frag ss).2 ts).1, (r.cut (r.cut frag ss).2 ts).2) := by
  induction ss generalizing frag with
  | nil => simp
  | cons c ss ih =>
    rw [List.cons_append]
    cases hc : r.isLoose c with
    | true => rw [cut_cons_of_loose hc, cut_cons_of_loose hc, ih]
    | false =>
      rw [cut_cons_of_not_loose hc, cut_cons_of_not_loose hc, ih]
      simp

/-! ## Errors in errors -/

mutual
/-- Cuts an error as it stands in the tree. Gives the pieces and the fragment that is still open at
the end, as `cut` does. -/
def tear (r : Rules) : Option Span → Node → List Piece × Option Span
  | frag, .mk _ cs => r.tearAll frag cs

/-- Cuts an error that has these children. The open fragment is handed into the errors among them
and taken back. -/
def tearAll (r : Rules) : Option Span → List Node → List Piece × Option Span
  | frag, [] => ([], frag)
  | frag, c :: cs =>
    if c.isVoid then r.tearAll frag cs
    else
      let here := if c.error then r.tear frag c else r.cut frag [c]
      let behind := r.tearAll here.2 cs
      (here.1 ++ behind.1, behind.2)
end

mutual
/-- How errors are nested makes no difference to the pieces. -/
theorem tear_eq_cut (r : Rules) : ∀ (frag : Option Span) (n : Node),
    r.tear frag n = r.cut frag n.shards
  | frag, .mk l cs => by
    rw [tear, Node.shards]
    exact tearAll_eq_cut r frag cs

theorem tearAll_eq_cut (r : Rules) : ∀ (frag : Option Span) (cs : List Node),
    r.tearAll frag cs = r.cut frag (Node.shardsAll cs)
  | frag, [] => by rw [tearAll, Node.shardsAll, cut_nil]
  | frag, c :: cs => by
    rw [tearAll, Node.shardsAll]
    by_cases hv : c.isVoid = true
    · rw [if_pos hv, if_pos hv, List.nil_append]
      exact tearAll_eq_cut r frag cs
    · rw [if_neg hv, if_neg hv, cut_append]
      have here : (if c.error = true then r.tear frag c else r.cut frag [c]) =
          r.cut frag (if c.error = true then c.shards else [c]) := by
        by_cases he : c.error = true
        · rw [if_pos he, if_pos he]
          exact tear_eq_cut r frag c
        · rw [if_neg he, if_neg he]
      simp only [here, tearAll_eq_cut r _ cs]
end

/-! ## Longest runs -/

/-- Shards fall into pieces. A run of loose shards goes on as far as it can: behind it stands a
shard that is not loose, if any. -/
inductive FallsInto (r : Rules) : List Node → List Piece → Prop
  | nil : FallsInto r [] []
  | whole {c : Node} {ss : List Node} {ps : List Piece} : r.isLoose c = false →
      FallsInto r ss ps → FallsInto r (c :: ss) (r.whole c :: ps)
  | run {first last : Node} {cs ss : List Node} {ps : List Piece} : cs.head? = some first →
      cs.getLast? = some last → (∀ c ∈ cs, r.isLoose c = true) →
      (∀ c, ss.head? = some c → r.isLoose c = false) → FallsInto r ss ps →
      FallsInto r (cs ++ ss) (.fragment ⟨first.start, last.stop⟩ :: ps)

/-- With one more shard in front there are pieces again: it starts a run, or the first run starts
with it, or it is a piece of its own. -/
theorem FallsInto.exists_cons (h : r.FallsInto ss ps) (c : Node) :
    ∃ qs, r.FallsInto (c :: ss) qs := by
  cases hc : r.isLoose c with
  | false => exact ⟨_, .whole hc h⟩
  | true =>
    have alone : ∀ d ∈ [c], r.isLoose d = true := by simpa using hc
    cases h with
    | nil => exact ⟨_, .run rfl rfl alone (by simp) .nil⟩
    | whole hd h => exact ⟨_, .run rfl rfl alone (by simpa using hd) (.whole hd h)⟩
    | @run first last cs ss ps _ hlast hcs hss h =>
      have last_of : (c :: cs).getLast? = some last := by
        rw [List.getLast?_cons, hlast, Option.getD_some]
      refine ⟨.fragment ⟨c.start, last.stop⟩ :: ps, ?_⟩
      rw [← List.cons_append]
      exact .run rfl last_of (List.forall_mem_cons.2 ⟨hc, hcs⟩) hss h

theorem exists_fallsInto (r : Rules) (ss : List Node) : ∃ ps, r.FallsInto ss ps := by
  induction ss with
  | nil => exact ⟨[], .nil⟩
  | cons c ss ih =>
    obtain ⟨ps, h⟩ := ih
    exact h.exists_cons c

/-- A run of loose shards is all in one fragment. -/
theorem cut_run (hfirst : cs.head? = some first) (hlast : cs.getLast? = some last)
    (loose : ∀ c ∈ cs, r.isLoose c = true) :
    r.cut none cs = ([], some ⟨first.start, last.stop⟩) := by
  induction cs using List.reverseRecOn generalizing last with
  | nil => cases hfirst
  | append_singleton cs c ih =>
    obtain rfl : c = last := by simpa using hlast
    obtain ⟨hcs, hc⟩ := List.forall_mem_append.1 loose
    have hc := hc c (List.mem_singleton_self _)
    cases hmid : cs.getLast? with
    | none =>
      obtain rfl := List.getLast?_eq_none_iff.1 hmid
      obtain rfl : c = first := by simpa using hfirst
      rw [List.nil_append, cut_cons_of_loose hc, cut_nil]
      rfl
    | some mid =>
      have hhead : cs.head? = some first := by
        cases cs with
        | nil => cases hmid
        | cons d cs => simpa using hfirst
      rw [cut_append, ih hhead hmid hcs, cut_cons_of_loose hc, cut_nil]
      rfl

/-- Where no loose shard follows, an open fragment is a piece. -/
theorem cut_closed (h : ∀ c, ss.head? = some c → r.isLoose c = false) :
    (r.cut (some t) ss).1 ++ ofFragment (r.cut (some t) ss).2 =
      .fragment t :: ((r.cut none ss).1 ++ ofFragment (r.cut none ss).2) := by
  cases ss with
  | nil => rfl
  | cons c ss =>
    have hc := h c rfl
    rw [cut_cons_of_not_loose hc, cut_cons_of_not_loose hc]
    rfl

/-- The pieces into which shards fall are those that the cut leads to, and no others. -/
theorem fallsInto_iff :
    r.FallsInto ss ps ↔ ps = (r.cut none ss).1 ++ ofFragment (r.cut none ss).2 := by
  -- The cut leaves no choice, and there are some pieces to fall into.
  have unique : ∀ {ss ps}, r.FallsInto ss ps →
      ps = (r.cut none ss).1 ++ ofFragment (r.cut none ss).2 := by
    intro ss ps h
    induction h with
    | nil => rfl
    | whole hc _ ih =>
      rw [cut_cons_of_not_loose hc, ih]
      rfl
    | run hfirst hlast loose hss _ ih =>
      rw [cut_append, cut_run hfirst hlast loose, List.nil_append, cut_closed hss, ih]
  constructor
  · exact unique
  · rintro rfl
    obtain ⟨ps, h⟩ := r.exists_fallsInto ss
    rwa [← unique h]

/-- The shards of an error fall into its pieces. -/
theorem fallsInto_regionPieces (r : Rules) (n : Node) : r.FallsInto n.shards (r.regionPieces n) :=
  fallsInto_iff.2 rfl

/-- There are no other pieces than fragments and what comes to one by itself. -/
theorem FallsInto.mem_cases (h : r.FallsInto ss ps) (hp : p ∈ ps) :
    (∃ t, p = .fragment t) ∨ ∃ c, p = r.whole c := by
  induction h with
  | nil => simp at hp
  | whole _ _ ih =>
    rcases List.mem_cons.1 hp with rfl | hp
    · exact .inr ⟨_, rfl⟩
    · exact ih hp
  | run _ _ _ _ _ ih =>
    rcases List.mem_cons.1 hp with rfl | hp
    · exact .inl ⟨_, rfl⟩
    · exact ih hp

/-! ## Nothing is lost -/

/-- Statements and blocks are pieces. -/
theorem FallsInto.whole_mem (h : r.FallsInto ss ps) (hc : c ∈ ss) (firm : r.isLoose c = false) :
    r.whole c ∈ ps := by
  induction h with
  | nil => simp at hc
  | whole _ _ ih =>
    rcases List.mem_cons.1 hc with rfl | hc
    · exact List.mem_cons_self
    · exact List.mem_cons_of_mem _ (ih hc)
  | run _ _ loose _ _ ih =>
    rcases List.mem_append.1 hc with hc | hc
    · exact absurd (loose c hc) (by simp [firm])
    · exact List.mem_cons_of_mem _ (ih hc)

/-- Nodes in a row lie between the start of the first and the stop of the last. -/
theorem within_of_row (h : Row lo hi (cs.map Node.span)) (hfirst : cs.head? = some first)
    (hlast : cs.getLast? = some last) (hc : c ∈ cs) :
    first.start ≤ c.start ∧ c.stop ≤ last.stop := by
  constructor
  · obtain ⟨rest, rfl⟩ := List.head?_eq_some_iff.1 hfirst
    obtain ⟨-, a, b⟩ := h
    rcases List.mem_cons.1 hc with rfl | hc
    · exact Nat.le_refl _
    · exact Nat.le_trans a (b.of_mem (List.mem_map_of_mem hc)).1
  · obtain ⟨front, rfl⟩ := List.getLast?_eq_some_iff.1 hlast
    rw [List.map_append] at h
    obtain ⟨mid, hfront, a, b, -⟩ := h.exists_of_append
    rcases List.mem_append.1 hc with hc | hc
    · have := (hfront.of_mem (List.mem_map_of_mem hc)).2.2
      exact Nat.le_trans this (Nat.le_trans a b)
    · obtain rfl := List.mem_singleton.1 hc
      exact Nat.le_refl _

/-- Every loose shard lies in a fragment. -/
theorem FallsInto.exists_fragment (h : r.FallsInto ss ps) (hrow : Row lo hi (ss.map Node.span))
    (hc : c ∈ ss) (loose : r.isLoose c = true) :
    ∃ t, .fragment t ∈ ps ∧ t.start ≤ c.start ∧ c.stop ≤ t.stop := by
  induction h generalizing lo with
  | nil => simp at hc
  | whole firm _ ih =>
    rcases List.mem_cons.1 hc with rfl | hc
    · exact absurd loose (by simp [firm])
    · obtain ⟨t, ht, hin⟩ := ih hrow.2.2 hc
      exact ⟨t, List.mem_cons_of_mem _ ht, hin⟩
  | run hfirst hlast _ _ _ ih =>
    rw [List.map_append] at hrow
    obtain ⟨mid, hrun, hrest⟩ := hrow.exists_of_append
    rcases List.mem_append.1 hc with hc | hc
    · exact ⟨_, List.mem_cons_self, within_of_row hrun hfirst hlast hc⟩
    · obtain ⟨t, ht, hin⟩ := ih hrest hc
      exact ⟨t, List.mem_cons_of_mem _ ht, hin⟩

end Rules

end StatementOutline
