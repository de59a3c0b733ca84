import StatementOutline.Proofs.Preorder

/-!
# Scoping is filtering

A scope prunes while it plants: a group it does not meet is not entered, and neither is a compound
statement it does not admit. What it leaves out that way it would not have admitted, so that
planting in a scope and filtering what is planted in the scope of the whole source come to the same.

* `restrict`: the records with a property, their parents renumbered;
* `plant_scoped`: planting one sketch in both scopes keeps the one forest the restriction of the
  other;
* `restricted_of_ofSketch`: what a scope gives is the restriction of the whole forest.
-/

namespace StatementOutline

namespace Record

variable {keep : Record → Bool} {rs new : List Record} {i j p : Nat} {r x : Record}
  {parent : Option Nat}

/-! ## Restrictions -/

/-- The number of kept records in front of a position. -/
def rank (keep : Record → Bool) (rs : List Record) (i : Nat) : Nat :=
  (rs.take i).countP keep

/-- The record with its parent counted among the kept ones. -/
def renumber (keep : Record → Bool) (rs : List Record) (r : Record) : Record :=
  { r with parent := r.parent.map (rank keep rs) }

/-- The kept records, renumbered. -/
def restrict (keep : Record → Bool) (rs : List Record) : List Record :=
  (rs.filter keep).map (renumber keep rs)

/-- The parent of a kept record is kept. -/
def ParentsKept (keep : Record → Bool) (rs : List Record) : Prop :=
  ∀ (i : Nat) r, rs[i]? = some r → keep r = true → Holder keep rs r.parent

theorem rank_append (h : i ≤ rs.length) : rank keep (rs ++ new) i = rank keep rs i := by
  rw [rank, rank, List.take_append_of_le_length h]

theorem length_restrict : (restrict keep rs).length = rank keep rs rs.length := by
  rw [restrict, List.length_map, rank, List.take_length, List.countP_eq_length_filter]

theorem Holder.lt (h : Holder keep rs parent) (hp : parent = some p) : p < rs.length := by
  obtain ⟨outer, ho, -⟩ := h p hp
  exact (List.getElem?_eq_some_iff.1 ho).1

/-- What comes behind a parent does not change its number. -/
theorem Holder.map_rank_append {keep' : Record → Bool} (h : Holder keep' rs parent) :
    parent.map (rank keep (rs ++ new)) = parent.map (rank keep rs) := by
  cases hp : parent with
  | none => rfl
  | some p => exact congrArg some (rank_append (Nat.le_of_lt (h.lt hp)))

/-- A restriction grows by the kept ones among the new records. -/
theorem restrict_append (hrs : Fitted rs) : restrict keep (rs ++ new) =
    restrict keep rs ++ (new.filter keep).map (renumber keep (rs ++ new)) := by
  rw [restrict, restrict, List.filter_append, List.map_append]
  congr 1
  apply List.map_congr_left
  intro r hr
  obtain ⟨i, hi⟩ := List.mem_iff_getElem?.1 (List.mem_filter.1 hr).1
  cases hp : r.parent with
  | none => simp [renumber, hp]
  | some p =>
    obtain ⟨outer, ho, -⟩ := (hrs.inside hi hp).2
    obtain ⟨hlt, -⟩ := List.getElem?_eq_some_iff.1 ho
    simp [renumber, hp, rank_append (Nat.le_of_lt hlt)]

theorem restrict_append_of_not (hrs : Fitted rs) (hnew : ∀ r ∈ new, keep r = false) :
    restrict keep (rs ++ new) = restrict keep rs := by
  have none_kept : new.filter keep = [] := by
    rw [List.filter_eq_nil_iff]
    intro r hr
    simp [hnew r hr]
  rw [restrict_append hrs, none_kept, List.map_nil, List.append_nil]

theorem restrict_concat (hrs : Fitted rs) (hk : keep r = true) (hp : Holder keep rs r.parent) :
    restrict keep (rs ++ [r]) = restrict keep rs ++ [renumber keep rs r] := by
  have single : [r].filter keep = [r] := by rw [List.filter_cons_of_pos hk, List.filter_nil]
  rw [restrict_append hrs, single, List.map_singleton, renumber, renumber, hp.map_rank_append]

/-- A kept record stands at its rank. -/
theorem getElem?_restrict (hr : rs[i]? = some r) (hk : keep r = true) :
    (restrict keep rs)[rank keep rs i]? = some (renumber keep rs r) := by
  obtain ⟨hi, hri⟩ := List.getElem?_eq_some_iff.1 hr
  have split : rs.filter keep = (rs.take i).filter keep ++ r :: (rs.drop (i + 1)).filter keep := by
    conv => lhs; rw [← List.take_append_drop i rs, List.drop_eq_getElem_cons hi, hri]
    rw [List.filter_append, List.filter_cons_of_pos hk]
  rw [restrict, List.getElem?_map, split, rank, List.countP_eq_length_filter,
    List.getElem?_append_right (Nat.le_refl _), Nat.sub_self]
  rfl

theorem exists_of_mem_restrict (hx : x ∈ restrict keep rs) :
    ∃ (i : Nat) (r : Record), rs[i]? = some r ∧ keep r = true ∧ x = renumber keep rs r := by
  obtain ⟨r, hr, rfl⟩ := List.mem_map.1 hx
  obtain ⟨hr, hk⟩ := List.mem_filter.1 hr
  obtain ⟨i, hi⟩ := List.mem_iff_getElem?.1 hr
  exact ⟨i, r, hi, hk, rfl⟩

/-- Later positions have more kept records in front when the first one is kept. -/
theorem rank_lt (hr : rs[i]? = some r) (hk : keep r = true) (hij : i < j) :
    rank keep rs i < rank keep rs j := by
  have grow : rank keep rs (i + 1) = rank keep rs i + 1 := by
    rw [rank, rank, List.take_add_one, hr, Option.toList_some, List.countP_append,
      List.countP_singleton, if_pos hk]
  have mono : rank keep rs (i + 1) ≤ rank keep rs j :=
    (List.take_sublist_take_left hij).countP_le
  omega

/-- Kept positions have different ranks. -/
theorem Holder.eq_of_map_rank {q : Option Nat} (hp : Holder keep rs parent) (hq : Holder keep rs q)
    (h : parent.map (rank keep rs) = q.map (rank keep rs)) : parent = q := by
  cases parent with
  | none =>
    cases q with
    | none => rfl
    | some j => cases h
  | some i =>
    cases q with
    | none => cases h
    | some j =>
      obtain ⟨a, ha, hka⟩ := hp i rfl
      obtain ⟨b, hb, hkb⟩ := hq j rfl
      have heq : rank keep rs i = rank keep rs j := by simpa using h
      obtain hij | rfl | hji := Nat.lt_trichotomy i j
      · have := rank_lt ha hka hij
        omega
      · rfl
      · have := rank_lt hb hkb hji
        omega

/-- What fits the records fits the kept ones when its parent is kept. -/
theorem Fits.restrict (h : Fits rs r) (hrs : ParentsKept keep rs) (hr : Holder keep rs r.parent) :
    Fits (restrict keep rs) (renumber keep rs r) := by
  constructor
  · exact h.solid
  · intro p hp
    obtain ⟨q, hq, rfl⟩ := Option.map_eq_some_iff.1 hp
    obtain ⟨outer, ho, hk⟩ := hr q hq
    obtain ⟨outer', ho', hin⟩ := h.inside q hq
    obtain rfl : outer = outer' := Option.some.inj (ho.symm.trans ho')
    exact ⟨_, getElem?_restrict ho hk, hin⟩
  · intro i x hx hp
    obtain ⟨j, y, hy, hk, rfl⟩ := exists_of_mem_restrict (List.mem_of_getElem? hx)
    have same : y.parent = r.parent := (hrs j y hy hk).eq_of_map_rank hr hp
    exact h.after j y hy same

end Record

/-! ## Two scopes -/

namespace Scope

variable {s : Scope} {span : Span} {compound : Bool} {length : Nat}

/-- The scope of a whole source. -/
def whole (length : Nat) : Scope :=
  ⟨⟨0, length⟩, .intersecting⟩

/-- The scope admits the statement of the record. -/
def keeps (s : Scope) (r : Record) : Bool :=
  decide (s.Admits r.span r.compound)

@[simp]
theorem keeps_iff {r : Record} : s.keeps r = true ↔ s.Admits r.span r.compound :=
  decide_eq_true_iff

@[simp]
theorem keeps_eq_false_iff {r : Record} : s.keeps r = false ↔ ¬ s.Admits r.span r.compound :=
  decide_eq_false_iff_not

@[simp]
theorem whole_admits_iff :
    (whole length).Admits span compound ↔ (whole length).query.Meets span := by
  simp [Admits, whole]

/-- What a query inside the source meets is met by the whole source. -/
theorem meets_whole (h : s.query.Meets span) (hq : s.query.stop ≤ length)
    (hspan : span.stop ≤ length) : (whole length).query.Meets span := by
  unfold Span.Meets Span.Owns whole at *
  split at h <;> split <;> simp_all <;> omega

theorem not_admits_of_not_whole (h : ¬ (whole length).Admits span compound)
    (hq : s.query.stop ≤ length) (hspan : span.stop ≤ length) : ¬ s.Admits span compound := by
  intro ha
  exact h (whole_admits_iff.2 (meets_whole ha.1 hq hspan))

/-- A compound statement around an admitted one is admitted. -/
theorem Admits.outer {inner : Span} (h : s.Admits inner compound)
    (hin : inner.StrictlyInside span) : s.Admits span true :=
  ⟨h.1.mono hin.1 hin.2.1, fun _ => .inl rfl⟩

end Scope

namespace Forest

open Record

variable {s : Scope} {parent : Option Nat} {f f' g : Forest} {kind : String} {span : Span}
  {compound : Bool} {length lo hi : Nat}

/-- The second forest holds what the scope admits of the first. -/
structure Scoped (s : Scope) (f g : Forest) : Prop where
  whole : f.Sound
  part : g.Sound
  compoundParents : f.CompoundParents
  records : g.records = restrict s.keeps f.records

theorem scoped_empty : Scoped s empty empty := by
  refine ⟨sound_empty, sound_empty, ?_, rfl⟩
  intro i r hr
  simp at hr

/-- Parents are compound and lie around their children, so they are admitted with them. -/
theorem Scoped.parentsKept (h : Scoped s f g) : ParentsKept s.keeps f.records := by
  intro i r hr hk p hp
  obtain ⟨outer, ho, hc⟩ := h.compoundParents i r hr p hp
  have hin := h.whole.fitted.strictlyInside hr hp ho
  have ha := (Scope.keeps_iff.1 hk).outer hin
  exact ⟨outer, ho, Scope.keeps_iff.2 (hc ▸ ha)⟩

/-- A parent goes by its rank in the scope. -/
def scopedParent (s : Scope) (f : Forest) (parent : Option Nat) : Option Nat :=
  parent.map (rank s.keeps f.records)

theorem Scoped.merges_eq (h : Scoped s f g) (hp : Holder s.keeps f.records parent) :
    g.merges span (scopedParent s f parent) = f.merges span parent := by
  cases parent with
  | none => rfl
  | some p =>
    obtain ⟨outer, ho, hk⟩ := hp p rfl
    have hg : g.records[rank s.keeps f.records p]? = some (renumber s.keeps f.records outer) := by
      rw [h.records]
      exact getElem?_restrict ho hk
    have same : g.span? (rank s.keeps f.records p) = f.span? p := by
      rw [span?_eq, span?_eq, hg, ho]
      rfl
    simp [merges, scopedParent, same]

/-- Growing by what the scope does not admit leaves its forest as it is. -/
theorem Scoped.skip {whole : Scope} (h : Scoped s f g)
    (hc : Holder Record.compound f.records parent) (hf : Grown whole parent f f')
    (hout : Extends (fun r => ¬ s.Admits r.span r.compound) f f') : Scoped s f' g := by
  obtain ⟨new, hnew, hout⟩ := hout
  have none_kept : ∀ r ∈ new, s.keeps r = false := by
    intro r hr
    exact Scope.keeps_eq_false_iff.2 (hout r hr)
  refine ⟨hf.sound h.whole, h.part, hf.compoundParents hc h.compoundParents, ?_⟩
  rw [h.records, hnew, restrict_append_of_not h.whole.fitted none_kept]

theorem Scoped.skip_of_not_meets {whole : Scope} (h : Scoped s f g)
    (hc : Holder Record.compound f.records parent) (hf : Grown whole parent f f')
    (hin : Within span.start span.stop f f') (hm : ¬ s.query.Meets span) : Scoped s f' g := by
  apply h.skip hc hf
  apply hin.mono
  intro r hr ha
  exact hm (ha.1.mono hr.1 hr.2)

/-- An admitted statement that fits the whole forest fits the scoped one. -/
theorem Scoped.push (h : Scoped s f g) (hc : Holder Record.compound f.records parent)
    (hk : Holder s.keeps f.records parent) (ha : s.Admits span compound)
    (hp : f.push kind span compound parent = .ok f') :
    ∃ g', g.push kind span compound (scopedParent s f parent) = .ok g' ∧ Scoped s f' g' := by
  have hfit := (h.whole.push_eq_ok_iff_fits.1 hp).1
  have hfit' : Fits g.records ⟨kind, span, compound, scopedParent s f parent⟩ := by
    rw [h.records]
    exact hfit.restrict h.parentsKept hk
  have hp' := h.part.push_eq_ok_iff_fits.2 ⟨hfit', rfl⟩
  refine ⟨_, hp', h.whole.push hp, h.part.push hp', h.compoundParents.push hc hp, ?_⟩
  rw [records_of_push hp', records_of_push hp, h.records]
  have hkeep : s.keeps ⟨kind, span, compound, parent⟩ = true := Scope.keeps_iff.2 ha
  exact (restrict_concat h.whole.fitted hkeep hk).symm

theorem Scoped.plantSimple (h : Scoped s f g) (hc : Holder Record.compound f.records parent)
    (hk : Holder s.keeps f.records parent) (hq : s.query.stop ≤ length)
    (hspan : span.stop ≤ length)
    (hf : f.plantSimple (Scope.whole length) parent kind span = .ok f') :
    ∃ g', g.plantSimple s (scopedParent s f parent) kind span = .ok g' ∧ Scoped s f' g' := by
  have hmerges : g.merges span (scopedParent s f parent) = f.merges span parent := h.merges_eq hk
  unfold Forest.plantSimple
  rw [hmerges]
  obtain ⟨hno, rfl⟩ | ⟨ha, hm, hp⟩ := plantSimple_cases hf
  · refine ⟨g, if_neg ?_, h⟩
    rintro ⟨ha, hm⟩
    exact hno ⟨Scope.whole_admits_iff.2 (Scope.meets_whole ha.1 hq hspan), by simpa using hm⟩
  · by_cases hs : s.Admits span false
    · obtain ⟨g', hg', hs'⟩ := h.push hc hk hs hp
      exact ⟨g', by rw [if_pos ⟨hs, by simp [hm]⟩, hg'], hs'⟩
    · refine ⟨g, if_neg fun h => hs h.1, ?_⟩
      exact h.skip hc (.leaf ha hp .refl) (extends_of_push hp hs)

theorem Scoped.plantRun {run : Run} (h : Scoped s f g)
    (hc : Holder Record.compound f.records parent) (hk : Holder s.keeps f.records parent)
    (hq : s.query.stop ≤ length) (hspan : run.span.stop ≤ length)
    (hf : f.plantRun (Scope.whole length) parent run = .ok f') :
    ∃ g', g.plantRun s (scopedParent s f parent) run = .ok g' ∧ Scoped s f' g' := by
  unfold Forest.plantRun
  obtain ⟨hno, rfl⟩ | ⟨ha, hp⟩ := plantRun_cases hf
  · exact ⟨g, if_neg (Scope.not_admits_of_not_whole hno hq hspan), h⟩
  · by_cases hs : s.Admits run.span false
    · obtain ⟨g', hg', hs'⟩ := h.push hc hk hs hp
      exact ⟨g', by rw [if_pos hs, hg'], hs'⟩
    · refine ⟨g, if_neg hs, ?_⟩
      exact h.skip hc (.leaf ha hp .refl) (extends_of_push hp hs)

/-- A new statement stands at the end of either forest. -/
theorem Scoped.scopedParent_of_push (h : Scoped s f g)
    (hp : f.push kind span compound parent = .ok f') :
    scopedParent s f' (some f.size) = some g.size := by
  have hlen : g.size = rank s.keeps f.records f.size := by
    rw [← length_records, ← length_records, h.records, length_restrict]
  rw [hlen, scopedParent, Option.map_some, records_of_push hp, rank_append (by simp)]

theorem scopedParent_grown {whole : Scope} (hc : Holder Record.compound f.records parent)
    {q : Option Nat} (hf : Grown whole q f f') :
    scopedParent s f' parent = scopedParent s f parent := by
  obtain ⟨new, hnew, -⟩ := hf.extends
  rw [scopedParent, scopedParent, hnew, hc.map_rank_append]

mutual
/-- Planting a sketch in both scopes keeps the one forest the restriction of the other. -/
theorem plant_scoped (hq : s.query.stop ≤ length) : ∀ (k : Sketch) {parent : Option Nat}
    {f f' g : Forest}, k.WellPlaced → k.span.stop ≤ length → Scoped s f g →
    Holder Record.compound f.records parent → Holder s.keeps f.records parent →
    plant (Scope.whole length) parent k f = .ok f' →
    ∃ g', plant s (scopedParent s f parent) k g = .ok g' ∧ Scoped s f' g'
  | .simple kind span, parent, f, f', g, _, hspan, h, hc, hk, hf => by
    rw [plant] at hf ⊢
    exact h.plantSimple hc hk hq hspan hf
  | .fragment span, parent, f, f', g, _, hspan, h, hc, hk, hf => by
    rw [plant] at hf ⊢
    exact h.plantSimple hc hk hq hspan hf
  | .attachments run, parent, f, f', g, _, hspan, h, hc, hk, hf => by
    rw [plant] at hf ⊢
    exact h.plantRun hc hk hq hspan hf
  | .group span body, parent, f, f', g, hw, hspan, h, hc, hk, hf => by
    have grown := plant_grown _ hf
    have within := plant_within _ hw hf
    rw [Sketch.WellPlaced] at hw
    rw [plant]
    by_cases hm : s.query.Meets span
    · rw [if_pos hm]
      obtain ⟨hno, -⟩ | ⟨-, hb⟩ := plant_group_cases hf
      · exact absurd (Scope.meets_whole hm hq hspan) hno
      · exact plantAll_scoped hq body (hw.1.widen (Nat.le_refl _) hspan) hw.2 h hc hk hb
    · rw [if_neg hm]
      exact ⟨g, rfl, h.skip_of_not_meets hc grown within hm⟩
  | .compound kind span body, parent, f, f', g, hw, hspan, h, hc, hk, hf => by
    have grown := plant_grown _ hf
    have within := plant_within _ hw hf
    rw [Sketch.WellPlaced] at hw
    have hbody := hw.1.widen (Nat.le_refl _) hspan
    rw [plant]
    by_cases ha : s.Admits span true
    · rw [if_pos ha, h.merges_eq hk]
      obtain ⟨hno, -⟩ | ⟨-, hm, hb⟩ | ⟨-, hm, f₁, hp, hb⟩ := plant_compound_cases hf
      · exact absurd ha (Scope.not_admits_of_not_whole hno hq hspan)
      · rw [if_pos hm]
        exact plantAll_scoped hq body hbody hw.2 h hc hk hb
      · obtain ⟨g₁, hg₁, h₁⟩ := h.push hc hk ha hp
        have hc₁ : Holder Record.compound f₁.records (some f.size) := holder_of_push hp rfl
        have hk₁ : Holder s.keeps f₁.records (some f.size) :=
          holder_of_push hp (Scope.keeps_iff.2 ha)
        obtain ⟨g', hg', h'⟩ := plantAll_scoped hq body hbody hw.2 h₁ hc₁ hk₁ hb
        rw [h.scopedParent_of_push hp] at hg'
        refine ⟨g', ?_, h'⟩
        rw [if_neg (by simp [hm]), hg₁]
        exact hg'
    · have hm : ¬ s.query.Meets span := fun hm => ha ⟨hm, fun _ => .inl rfl⟩
      rw [if_neg ha]
      exact ⟨g, rfl, h.skip_of_not_meets hc grown within hm⟩

theorem plantAll_scoped (hq : s.query.stop ≤ length) : ∀ (ks : List Sketch) {parent : Option Nat}
    {f f' g : Forest} {lo : Nat}, Row lo length (ks.map Sketch.span) → Sketch.AllWellPlaced ks →
    Scoped s f g → Holder Record.compound f.records parent → Holder s.keeps f.records parent →
    plantAll (Scope.whole length) parent ks f = .ok f' →
    ∃ g', plantAll s (scopedParent s f parent) ks g = .ok g' ∧ Scoped s f' g'
  | [], parent, f, f', g, lo, _, _, h, _, _, hf => by
    obtain rfl : f = f' := by simpa using hf
    exact ⟨g, plantAll_nil, h⟩
  | k :: ks, parent, f, f', g, lo, ⟨_, _, hrow⟩, hw, h, hc, hk, hf => by
    rw [Sketch.AllWellPlaced] at hw
    obtain ⟨f₁, hf₁, hf'⟩ := plantAll_cons_ok.1 hf
    have grown := plant_grown k hf₁
    obtain ⟨g₁, hg₁, h₁⟩ := plant_scoped hq k hw.1 hrow.le h hc hk hf₁
    have hc₁ := grown.holder hc
    have hk₁ := grown.holder hk
    obtain ⟨g', hg', h'⟩ := plantAll_scoped hq ks hrow hw.2 h₁ hc₁ hk₁ hf'
    rw [scopedParent_grown hc grown] at hg'
    exact ⟨g', plantAll_cons_ok.2 ⟨g₁, hg₁, hg'⟩, h'⟩
end

/-- What a scope gives is what it admits of the whole forest: the same statements in the same order,
each under the one it had been under, and that one is admitted, too. A scope never fails where the
whole source does not. -/
theorem restricted_of_ofSketch {l : Language} {root : Node} (hroot : root.WellPlaced)
    (hlength : root.stop ≤ length) (hquery : s.query.stop ≤ length)
    (h : ofSketch (Scope.whole length) (l.rules.sketchRoot root) = .ok f) :
    ∃ g, ofSketch s (l.rules.sketchRoot root) = .ok g ∧
      g.records = restrict s.keeps f.records ∧ ParentsKept s.keeps f.records := by
  obtain ⟨hrow, hw⟩ := Rules.wellPlaced_sketchRoot (r := l.rules) hroot
  obtain ⟨g, hg, hs⟩ := plantAll_scoped hquery _ (hrow.widen (Nat.le_refl _) hlength)
    (Sketch.allWellPlaced_iff.2 hw) scoped_empty holder_none holder_none h
  exact ⟨g, hg, hs.records, hs.parentsKept⟩

/-- Inside the innermost of three blocks the first one is out of scope, so the second one takes its
number. -/
theorem restricted_threeBlocks : threeBlocks.WellPlaced ∧
    ∃ g, ofSketch ⟨⟨3, 4⟩, .contained⟩ (Language.c.rules.sketchRoot threeBlocks) = .ok g ∧
      g.records = [⟨"compound_statement", ⟨2, 6⟩, true, none⟩,
        ⟨"compound_statement", ⟨3, 5⟩, true, some 0⟩] := by
  have placed : threeBlocks.WellPlaced := by decide
  obtain ⟨g, hg, hrec, -⟩ := restricted_of_ofSketch (s := ⟨⟨3, 4⟩, .contained⟩) placed
    (by decide) (by decide) ofSketch_threeBlocks
  refine ⟨placed, g, hg, hrec.trans ?_⟩
  decide

end Forest

end StatementOutline
