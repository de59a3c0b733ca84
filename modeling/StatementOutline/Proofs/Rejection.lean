import StatementOutline.Grammar.Profile
import StatementOutline.Proofs.Planting
import StatementOutline.Proofs.Reach

/-!
# What a forest rejects

Sketches of well placed trees follow one another, so a statement never overlaps the one before it
and never sticks out of the one around it. Two things remain that a push may reject: a statement
without text, which can only stand in place of a block, and attachments that take up all of the
statement around them.

* `Room`: the place that is left for a sketch when all in front of it is planted;
* `plant_refused`: planting a sketch in its room fails only at what is refused;
* `Planted`, `planted_of_occurs`: what has been planted on the way to a forest;
* `Refused.not_ok`: and it does fail there;
* `rejects_of_ofSketch`, `unbuilt_iff`: the same of the nodes of the tree.
-/

namespace StatementOutline

namespace Forest

open Record

variable {s : Scope} {parent : Option Nat} {outer : Option Span} {f g : Forest} {kind : String}
  {span : Span} {compound : Bool} {lo lo' mid hi hi' : Nat} {k : Sketch} {ks : List Sketch}
  {v : Violation}

/-! ## Places -/

/-- The position is that of a statement with the span. Without either it is the top. -/
inductive Place (f : Forest) : Option Nat → Option Span → Prop
  | top : Place f none none
  | under {p : Nat} {r : Record} : f.records[p]? = some r → Place f (some p) (some r.span)

theorem Place.grown (h : f.Place parent outer) {q : Option Nat} (hg : Grown s q f g) :
    g.Place parent outer := by
  cases h with
  | top => exact .top
  | under hr => exact .under (hg.getElem? hr)

theorem Place.parent_lt (h : f.Place parent outer) {p : Nat} (hp : parent = some p) :
    p < f.size := by
  cases h with
  | top => cases hp
  | under hr =>
    cases hp
    rw [← length_records]
    exact (List.getElem?_eq_some_iff.1 hr).1

theorem place_of_push (hp : f.push kind span compound parent = .ok g) :
    g.Place (some f.size) (some span) :=
  .under (getElem?_records_of_push hp)

/-- A statement is merged when its span is the one around it. -/
theorem Place.merges_iff (h : f.Place parent outer) :
    f.merges span parent = true ↔ outer = some span := by
  cases h with
  | top => simp [merges]
  | under hr => simp [merges, span?_eq, hr]

theorem Place.solid (h : f.Place parent (some span)) (hf : f.Sound) : ¬ span.Empty := by
  cases h with
  | under hr => exact Nat.not_le.2 (hf.fitted.solid hr)

/-- A statement that is pushed lies strictly inside the span of its place. -/
theorem Place.ne_of_push (h : f.Place parent outer) (hf : f.Sound)
    (hp : f.push kind span compound parent = .ok g) : outer ≠ some span := by
  rintro rfl
  have hfit := (hf.push_eq_ok_iff_fits.1 hp).1
  cases h with
  | under hr =>
    obtain ⟨x, hx, hin⟩ := hfit.inside _ rfl
    obtain rfl := Option.some.inj (hr.symm.trans hx)
    exact hin.2.2 rfl

/-- Between the two offsets there is room under the position: they lie inside the span around it,
and all that stands there ends in front. -/
structure Room (f : Forest) (parent : Option Nat) (outer : Option Span) (lo hi : Nat) : Prop where
  sound : f.Sound
  place : f.Place parent outer
  inside : ∀ o, outer = some o → o.start ≤ lo ∧ hi ≤ o.stop
  behind : ∀ (i : Nat) x, f.records[i]? = some x → x.parent = parent → x.span.stop ≤ lo

theorem room_empty : empty.Room none none lo hi := by
  refine ⟨sound_empty, .top, by simp, ?_⟩
  intro i x hx
  simp at hx

theorem Room.narrow (h : f.Room parent outer lo hi) (hlo : lo ≤ lo') (hhi : hi' ≤ hi) :
    f.Room parent outer lo' hi' := by
  refine ⟨h.sound, h.place, ?_, ?_⟩
  · intro o ho
    obtain ⟨a, b⟩ := h.inside o ho
    exact ⟨Nat.le_trans a hlo, Nat.le_trans hhi b⟩
  · intro i x hx hp
    exact Nat.le_trans (h.behind i x hx hp) hlo

/-- What is planted in the front of the room leaves the back of it. -/
theorem Room.grown (h : f.Room parent outer lo hi) (hg : Grown s parent f g)
    (hin : Within lo mid f g) (hmid : lo ≤ mid) : g.Room parent outer mid hi := by
  refine ⟨hg.sound h.sound, h.place.grown hg, ?_, ?_⟩
  · intro o ho
    obtain ⟨a, b⟩ := h.inside o ho
    exact ⟨Nat.le_trans a hmid, b⟩
  · intro i x hx hp
    obtain ⟨new, hnew, hspans⟩ := hin
    rw [hnew] at hx
    by_cases hi : i < f.records.length
    · rw [List.getElem?_append_left hi] at hx
      exact Nat.le_trans (h.behind i x hx hp) hmid
    · rw [List.getElem?_append_right (Nat.le_of_not_lt hi)] at hx
      exact (hspans x (List.mem_of_getElem? hx)).2

/-- Under a new statement there is room inside all of it. -/
theorem room_of_push (hf : f.Sound) (hp : f.push kind span compound parent = .ok g) :
    g.Room (some f.size) (some span) span.start span.stop := by
  have hg := hf.push hp
  refine ⟨hg, place_of_push hp, ?_, ?_⟩
  · rintro o ⟨⟩
    exact ⟨Nat.le_refl _, Nat.le_refl _⟩
  · intro i x hx hxp
    have behind := hg.fitted.parent_lt hx hxp
    obtain ⟨hi, -⟩ := List.getElem?_eq_some_iff.1 hx
    rw [records_of_push hp, List.length_append, length_records, List.length_singleton] at hi
    omega

/-- Where there is room a push is rejected only for want of text, or when the statement takes up all
of the one around it. -/
theorem Room.violation_cases (h : f.Room parent outer span.start span.stop)
    (hp : f.push kind span compound parent = .error v) :
    span.Empty ∧ v = .emptySpan kind span ∨
      outer = some span ∧ ∃ outerKind, v = .notInside kind span outerKind span := by
  have hv := push_eq_error_iff.1 hp
  by_cases he : span.Empty
  · have : v = .emptySpan kind span := by simpa [violation?, emptySpan?, he, eq_comm] using hv
    exact .inl ⟨he, this⟩
  · right
    have after : f.overlap? kind span parent = none := h.sound.overlap?_eq_none_iff.2 h.behind
    have misplaced : f.misplaced? kind span parent = some v := by
      simpa [violation?, emptySpan?, he, after] using hv
    cases h.place with
    | top => simp [misplaced?] at misplaced
    | @under p r hr =>
      obtain ⟨a, b⟩ := h.inside r.span rfl
      obtain ⟨e, hep, rfl⟩ := exists_of_records hr
      simp only [misplaced?, hep] at misplaced
      split at misplaced
      · cases misplaced
      · next hin =>
        have same : span = e.span := Decidable.byContradiction fun hne => hin ⟨a, b, hne⟩
        refine ⟨congrArg some same.symm, e.kind, ?_⟩
        rw [← same] at misplaced
        exact (Option.some.inj misplaced).symm

theorem Room.empty_of_not_merges (h : f.Room parent outer span.start span.stop)
    (hm : f.merges span parent = false) (hp : f.push kind span compound parent = .error v) :
    span.Empty ∧ v = .emptySpan kind span := by
  obtain h' | ⟨ho, -⟩ := h.violation_cases hp
  · exact h'
  · rw [h.place.merges_iff.2 ho] at hm
    cases hm

/-! ## Refused sketches -/

/-- What a scope lets through and a push then rejects, among some sketches and all they hold. -/
inductive Refused (s : Scope) (ks : List Sketch) : Violation → Prop
  | simple {outer : Option Span} {kind : String} {span : Span} :
      Sketch.Occurs ks outer (.simple kind span) → span.Empty → s.query.Meets span →
      Refused s ks (.emptySpan kind span)
  | compound {outer : Option Span} {kind : String} {span : Span} {body : List Sketch} :
      Sketch.Occurs ks outer (.compound kind span body) → span.Empty → s.query.Meets span →
      Refused s ks (.emptySpan kind span)
  | attachments {run : Run} {outerKind : String} :
      Sketch.Occurs ks (some run.span) (.attachments run) → s.Admits run.span false →
      Refused s ks (.notInside run.kind run.span outerKind run.span)

section
variable {all : List Sketch}

mutual
/-- A sketch planted where there is room for it fails only at what is refused. -/
theorem plant_refused : ∀ (k : Sketch) {parent : Option Nat} {outer : Option Span} {f : Forest},
    Sketch.Occurs all outer k → k.WellPlaced → f.Room parent outer k.span.start k.span.stop →
    plant s parent k f = .error v → Refused s all v
  | .simple kind span, parent, outer, f, hk, _, hroom, hv => by
    rw [plant] at hv
    obtain ⟨ha, hm, hp⟩ := plantSimple_error hv
    obtain ⟨he, rfl⟩ := hroom.empty_of_not_merges hm hp
    exact .simple hk he ha.1
  | .fragment span, parent, outer, f, hk, hw, hroom, hv => by
    rw [plant] at hv
    rw [Sketch.WellPlaced] at hw
    obtain ⟨-, hm, hp⟩ := plantSimple_error hv
    obtain ⟨he, -⟩ := hroom.empty_of_not_merges hm hp
    exact absurd he (Nat.not_le.2 hw)
  | .attachments run, parent, outer, f, hk, hw, hroom, hv => by
    rw [plant] at hv
    rw [Sketch.WellPlaced] at hw
    obtain ⟨ha, hp⟩ := plantRun_error hv
    obtain ⟨he, -⟩ | ⟨rfl, outerKind, rfl⟩ := hroom.violation_cases hp
    · exact absurd he (Nat.not_le.2 hw)
    · exact .attachments hk ha
  | .group span body, parent, outer, f, hk, hw, hroom, hv => by
    rw [Sketch.WellPlaced] at hw
    exact plantAll_refused body (fun l hl => .nested hk hl) hw.1 hw.2 hroom (plant_group_error hv)
  | .compound kind span body, parent, outer, f, hk, hw, hroom, hv => by
    rw [Sketch.WellPlaced] at hw
    have below : ∀ l ∈ body, Sketch.Occurs all (some span) l := fun l hl => .nested hk hl
    obtain ⟨ha, ⟨hm, hb⟩ | ⟨hm, hp | ⟨g, hp, hb⟩⟩⟩ := plant_compound_error hv
    · obtain rfl := hroom.place.merges_iff.1 hm
      exact plantAll_refused body below hw.1 hw.2 hroom hb
    · obtain ⟨he, rfl⟩ := hroom.empty_of_not_merges hm hp
      exact .compound hk he ha.1
    · exact plantAll_refused body below hw.1 hw.2 (room_of_push hroom.sound hp) hb

theorem plantAll_refused : ∀ (ks : List Sketch) {parent : Option Nat} {outer : Option Span}
    {f : Forest} {lo hi : Nat}, (∀ k ∈ ks, Sketch.Occurs all outer k) →
    Row lo hi (ks.map Sketch.span) → Sketch.AllWellPlaced ks → f.Room parent outer lo hi →
    plantAll s parent ks f = .error v → Refused s all v
  | [], parent, outer, f, lo, hi, _, _, _, _, hv => by
    simp at hv
  | k :: ks, parent, outer, f, lo, hi, hall, ⟨a, b, hrow⟩, hw, hroom, hv => by
    rw [Sketch.AllWellPlaced] at hw
    obtain hv | ⟨g, hg, hv⟩ := plantAll_cons_error.1 hv
    · exact plant_refused k (hall k (by simp)) hw.1 (hroom.narrow a hrow.le) hv
    · have within := (plant_within k hw.1 hg).widen a (Nat.le_refl _)
      have rest := hroom.grown (plant_grown k hg) within (Nat.le_trans a b)
      exact plantAll_refused ks (fun l hl => hall l (by simp [hl])) hrow hw.2 rest hv
end

end

/-- The scope admits the record, which is not put under any of the records that the second forest
has besides those of the first. -/
def Clears (s : Scope) (f g : Forest) (r : Record) : Prop :=
  s.Admits r.span r.compound ∧ ∀ p, r.parent = some p → p < f.size ∨ g.size ≤ p

/-- On the way to the forest the sketches have been planted in a row under a statement with the
span, or at the top, and what was planted there has stayed, without anything added below it. -/
def Planted (s : Scope) (g : Forest) (outer : Option Span) (ks : List Sketch) : Prop :=
  ∃ parent f₁ f₂, Sound f₁ ∧ f₁.Place parent outer ∧ plantAll s parent ks f₁ = .ok f₂ ∧
    Extends (Clears s f₁ f₂) f₂ g

theorem planted_all (hg : ofSketch s ks = .ok g) : Planted s g none ks :=
  ⟨none, empty, g, sound_empty, .top, hg, .refl⟩

/-- Some of the sketches have been planted behind those in front of them. -/
theorem Planted.middle {pre post : List Sketch} (h : Planted s g outer (pre ++ ks ++ post)) :
    Planted s g outer ks := by
  obtain ⟨parent, f₁, f₄, hs, hplace, hall, hext⟩ := h
  obtain ⟨f₃, hfront, hpost⟩ := plantAll_append_ok.1 hall
  obtain ⟨f₂, hpre, hks⟩ := plantAll_append_ok.1 hfront
  have grown := plantAll_grown pre hpre
  have before := grown.extends.size_le
  have behind := plantAll_grown post hpost
  have place := hplace.grown grown
  -- What comes behind hangs on the same parent, and what comes later hangs on neither.
  have clear : Extends (Clears s f₂ f₃) f₃ f₄ := by
    obtain ⟨new, hnew, admitted⟩ := behind.extends
    obtain ⟨new', hnew', hangs⟩ := behind.hangsFrom
    obtain rfl : new = new' := List.append_cancel_left (hnew.symm.trans hnew')
    refine ⟨new, hnew, fun r hr => ⟨admitted r hr, fun p hp => ?_⟩⟩
    obtain heq | ⟨q, hq, hle⟩ := hangs r hr
    · exact .inl (place.parent_lt (heq.symm.trans hp))
    · cases hq.symm.trans hp
      exact .inr hle
  have later : Extends (Clears s f₂ f₃) f₄ g := hext.mono fun r hr => by
    refine ⟨hr.1, fun p hp => ?_⟩
    have longer := behind.extends.size_le
    have apart := hr.2 p hp
    omega
  exact ⟨parent, f₂, f₃, grown.sound hs, place, hks, clear.trans later⟩

theorem Planted.of_mem (h : Planted s g outer ks) (hk : k ∈ ks) : Planted s g outer [k] := by
  obtain ⟨pre, post, rfl⟩ := List.append_of_mem hk
  rw [← List.singleton_append, ← List.append_assoc] at h
  exact h.middle

/-- Whatever the position under which a body was planted, it has the right span. -/
theorem Planted.body (h : Planted s g outer [k]) (hm : s.query.Meets k.span)
    (hk : k.isOpen = true) : Planted s g (k.around outer) k.body := by
  obtain ⟨parent, f₁, f₂, hs, hplace, hplant, hext⟩ := h
  rw [plantAll_singleton] at hplant
  cases k with
  | group span body =>
    obtain ⟨hno, -⟩ | ⟨-, hb⟩ := plant_group_cases hplant
    · exact absurd hm hno
    · exact ⟨parent, f₁, f₂, hs, hplace, hb, hext⟩
  | compound kind span body =>
    obtain ⟨hno, -⟩ | ⟨-, hmerge, hb⟩ | ⟨-, -, h, hp, hb⟩ := plant_compound_cases hplant
    · exact absurd ⟨hm, fun _ => .inl rfl⟩ hno
    · obtain rfl := hplace.merges_iff.1 hmerge
      exact ⟨parent, f₁, f₂, hs, hplace, hb, hext⟩
    · have longer : f₁.size ≤ h.size := (extends_of_push hp (P := fun _ => True) trivial).size_le
      have clear : Extends (Clears s h f₂) f₂ g := hext.mono fun r hr =>
        ⟨hr.1, fun p hp => (hr.2 p hp).imp_left fun hlt => Nat.lt_of_lt_of_le hlt longer⟩
      exact ⟨some f₁.size, h, f₂, hs.push hp, place_of_push hp, hb, clear⟩
  | simple | fragment | attachments => simp [Sketch.isOpen] at hk

/-- When a forest has been built, each sketch that the query meets has been planted in its place,
and what was planted there has stayed. -/
theorem planted_of_occurs (h : Sketch.Occurs ks outer k) (hks : ∀ k ∈ ks, k.WellPlaced)
    (hg : ofSketch s ks = .ok g) (hm : s.query.Meets k.span) :
    ∃ parent f₁ f₂, Sound f₁ ∧ f₁.Place parent outer ∧ plant s parent k f₁ = .ok f₂ ∧
      Extends (fun r => s.Admits r.span r.compound) f₂ g := by
  have planted : Planted s g outer [k] := by
    induction h with
    | top hk => exact (planted_all hg).of_mem hk
    | nested hk hl ih =>
      obtain ⟨-, a, b⟩ := (hk.wellPlaced hks).of_mem_body hl
      have hmk := hm.mono a b
      exact ((ih hmk).body hmk (Sketch.isOpen_of_mem_body hl)).of_mem hl
  obtain ⟨parent, f₁, f₂, hs, hplace, hplant, hext⟩ := planted
  have stays := hext.mono fun r hr => hr.1
  exact ⟨parent, f₁, f₂, hs, hplace, plantAll_singleton.symm.trans hplant, stays⟩

/-- Where something is refused no forest is built. -/
theorem Refused.not_ok (h : Refused s ks v) (hks : ∀ k ∈ ks, k.WellPlaced) :
    ofSketch s ks ≠ .ok g := by
  intro hg
  cases h with
  | @simple outer kind span hk he hm =>
    obtain ⟨parent, f₁, f₂, hs, hplace, hplant, -⟩ := planted_of_occurs hk hks hg hm
    rw [plant] at hplant
    obtain ⟨hno, -⟩ | ⟨-, -, hp⟩ := plantSimple_cases hplant
    · have ha : s.Admits span false := ⟨hm, fun _ => .inr (hm.covers he)⟩
      have hmerge : f₁.merges span parent = true := by simpa [ha] using hno
      obtain rfl := hplace.merges_iff.1 hmerge
      exact hplace.solid hs he
    · exact (hs.push_eq_ok_iff_fits.1 hp).1.solid he
  | @compound outer kind span body hk he hm =>
    obtain ⟨parent, f₁, f₂, hs, hplace, hplant, -⟩ := planted_of_occurs hk hks hg hm
    obtain ⟨hno, -⟩ | ⟨-, hmerge, -⟩ | ⟨-, -, h, hp, -⟩ := plant_compound_cases hplant
    · exact hno ⟨hm, fun _ => .inl rfl⟩
    · obtain rfl := hplace.merges_iff.1 hmerge
      exact hplace.solid hs he
    · exact (hs.push_eq_ok_iff_fits.1 hp).1.solid he
  | @attachments run outerKind hk ha =>
    obtain ⟨parent, f₁, f₂, hs, hplace, hplant, -⟩ := planted_of_occurs hk hks hg ha.1
    rw [plant] at hplant
    obtain ⟨hno, -⟩ | ⟨-, hp⟩ := plantRun_cases hplant
    · exact hno ha
    · exact hplace.ne_of_push hs hp rfl

end Forest

namespace Rules

/-- The violations that planting a well placed tree can lead to: a statement without text that
stands in place of a block, and attachments with the span of the statement around them. -/
inductive Rejects (r : Rules) (root : Node) : Violation → Prop
  | inline {n : Node} : r.InlineBody root n → n.span.Empty →
      Rejects r root (.emptySpan n.kind n.span)
  | attachments {run : Run} {outerKind : String} :
      r.Reaches root (some run.span) (.attachments run) →
      Rejects r root (.notInside run.kind run.span outerKind run.span)

/-- A scope comes upon one of the two. -/
def Offends (r : Rules) (root : Node) (s : Scope) : Prop :=
  (∃ n, r.InlineBody root n ∧ n.span.Empty ∧ s.query.Meets n.span) ∨
    ∃ run, r.Reaches root (some run.span) (.attachments run) ∧ s.Admits run.span false

end Rules

namespace Forest

open Rules

variable {r : Rules} {root n : Node} {s : Scope} {f : Forest} {v : Violation}

/-- What is refused of the sketch of a tree is one of the two. -/
theorem Refused.rejects (h : Refused s (r.sketchRoot root) v) (hroot : root.WellPlaced) :
    r.Rejects root v ∧ r.Offends root s := by
  -- A statement without text, simple or compound, is drawn from a node in place of a block.
  have inline : ∀ {outer start n}, r.Reaches root outer (.statement start n) →
      Span.Empty ⟨start, n.stop⟩ → s.query.Meets ⟨start, n.stop⟩ →
      r.Rejects root (.emptySpan n.kind ⟨start, n.stop⟩) ∧ r.Offends root s := by
    intro outer start n hn he hm
    obtain ⟨rfl, hb⟩ := hn.inlineBody_of_empty hroot he
    exact ⟨.inline hb he, .inl ⟨n, hb, he, hm⟩⟩
  cases h with
  | simple hk he hm =>
    obtain ⟨p, hp, hd⟩ := occurs_iff_reaches.1 hk
    cases hd with
    | simple => exact inline hp he hm
  | compound hk he hm =>
    obtain ⟨p, hp, hd⟩ := occurs_iff_reaches.1 hk
    cases hd with
    | compound => exact inline hp he hm
  | attachments hk ha =>
    obtain ⟨p, hp, hd⟩ := occurs_iff_reaches.1 hk
    cases hd with
    | attachments => exact ⟨.attachments hp, .inr ⟨_, hp, ha⟩⟩

theorem exists_refused (h : r.Offends root s) : ∃ v, Refused s (r.sketchRoot root) v := by
  obtain ⟨n, hb, he, hm⟩ | ⟨run, hrun, ha⟩ := h
  · obtain ⟨outer, hn⟩ := hb.reaches
    obtain ⟨k, hd⟩ | ⟨m, hm⟩ := drawn_or_block (r := r) (.statement n.start n)
    · have hk := occurs_iff_reaches.2 ⟨_, hn, hd⟩
      cases hd with
      | simple => exact ⟨_, .simple hk he hm⟩
      | compound => exact ⟨_, .compound hk he hm⟩
    · cases hm
  · have hk := occurs_iff_reaches.2 ⟨_, hrun, .attachments⟩
    exact ⟨.notInside run.kind run.span run.kind run.span, .attachments hk ha⟩

/-- Planting the sketch of a well placed tree fails only at what is refused. -/
theorem refused_of_ofSketch (hroot : root.WellPlaced)
    (h : ofSketch s (r.sketchRoot root) = .error v) : Refused s (r.sketchRoot root) v := by
  obtain ⟨hrow, hw⟩ := wellPlaced_sketchRoot (r := r) hroot
  exact plantAll_refused _ (fun k hk => .top hk) hrow (Sketch.allWellPlaced_iff.2 hw) room_empty h

/-! ## A branch without a body

The PHP conditional `if ($a) { b(); } elseif ($c)` lacks the body of its second branch. The parser
puts an empty statement there. -/

/-- The statement in the first branch. -/
def call : Node :=
  .mk ⟨"expression_statement", none, ⟨16, 20⟩, true, false, false, false, false⟩ [
    .mk ⟨"function_call_expression", none, ⟨16, 19⟩, true, false, false, false, false⟩ [
      .mk ⟨"name", some "function", ⟨16, 17⟩, true, false, false, false, false⟩ [],
      .mk ⟨"arguments", some "arguments", ⟨17, 19⟩, true, false, false, false, false⟩ [
        .mk ⟨"(", none, ⟨17, 18⟩, false, false, false, false, false⟩ [],
        .mk ⟨")", none, ⟨18, 19⟩, false, false, false, false, false⟩ []]],
    .mk ⟨";", none, ⟨19, 20⟩, false, false, false, false, false⟩ []]

def callBlock : Node :=
  .mk ⟨"compound_statement", some "body", ⟨14, 22⟩, true, false, false, false, false⟩ [
    .mk ⟨"\x7b", none, ⟨14, 15⟩, false, false, false, false, false⟩ [],
    call,
    .mk ⟨"\x7d", none, ⟨21, 22⟩, false, false, false, false, false⟩ []]

/-- The statement that stands in for the second branch. -/
def emptyStatement : Node :=
  .mk ⟨"empty_statement", some "body", ⟨34, 34⟩, true, false, false, false, true⟩ [
    .mk ⟨";", none, ⟨34, 34⟩, false, false, false, true, true⟩ []]

/-- The condition of a branch. -/
def condition (start : Nat) : Node :=
  .mk ⟨"parenthesized_expression", some "condition", ⟨start, start + 4⟩, true, false, false, false,
      false⟩ [
    .mk ⟨"(", none, ⟨start, start + 1⟩, false, false, false, false, false⟩ [],
    .mk ⟨"variable_name", none, ⟨start + 1, start + 3⟩, true, false, false, false, false⟩ [
      .mk ⟨"$", none, ⟨start + 1, start + 2⟩, false, false, false, false, false⟩ [],
      .mk ⟨"name", none, ⟨start + 2, start + 3⟩, true, false, false, false, false⟩ []],
    .mk ⟨")", none, ⟨start + 3, start + 4⟩, false, false, false, false, false⟩ []]

def conditional : Node :=
  .mk ⟨"if_statement", none, ⟨6, 34⟩, true, false, false, false, true⟩ [
    .mk ⟨"if", none, ⟨6, 8⟩, false, false, false, false, false⟩ [],
    condition 9,
    callBlock,
    .mk ⟨"else_if_clause", some "alternative", ⟨23, 34⟩, true, false, false, false, true⟩ [
      .mk ⟨"elseif", none, ⟨23, 29⟩, false, false, false, false, false⟩ [],
      condition 30,
      emptyStatement]]

def emptyBranch : Node :=
  .mk ⟨"program", none, ⟨0, 35⟩, true, false, false, false, true⟩ [
    .mk ⟨"php_tag", none, ⟨0, 5⟩, true, false, false, false, false⟩ [],
    conditional]

theorem wellPlaced_emptyBranch : emptyBranch.WellPlaced := by decide

theorem partsOf_conditional :
    Language.php.rules.partsOf conditional = [.block callBlock, .inline emptyStatement] := by
  have hbody : Language.php.rules.body? conditional.kind =
      some (.fields ["body", "alternative"]) := rfl
  rw [partsOf, hbody]
  dsimp only
  rw [parts]
  rfl

theorem sketchRoot_emptyBranch : Language.php.rules.sketchRoot emptyBranch =
    [.compound "if_statement" ⟨6, 34⟩
      [.simple "expression_statement" ⟨16, 20⟩, .simple "empty_statement" ⟨34, 34⟩]] := by
  have hroot : Language.php.rules.rootPieces emptyBranch = [.statement 6 conditional] := rfl
  have hc : Language.php.rules.isCompound conditional = true := by
    rw [isCompound, partsOf_conditional]
    rfl
  have hinner : Language.php.rules.inner (.statement 6 conditional) =
      [.statement 16 call, .statement 34 emptyStatement] := by
    rw [Rules.inner, if_pos hc, partsOf_conditional]
    rfl
  rw [sketchRoot, hroot, sketchAll, List.flatMap_singleton, sketch_eq]
  simp only [hc, if_true, hinner, sketchAll, List.flatMap_cons, List.flatMap_nil]
  rw [sketch_of_simple rfl, sketch_of_simple rfl]
  rfl

theorem ofSketch_emptyBranch :
    ofSketch ⟨⟨0, 35⟩, .intersecting⟩ (Language.php.rules.sketchRoot emptyBranch) =
      .error (.emptySpan "empty_statement" ⟨34, 34⟩) := by
  rw [sketchRoot_emptyBranch]
  rfl

/-! ## Rejected trees -/

/-- Whatever the language and the scope, a well placed tree is rejected for one of two reasons, and
a tree that gives neither reason is built. No statement overlaps the one before it, none is put
under an unknown one, and none sticks out of the one around it. -/
theorem rejects_of_ofSketch {l : Language} (hroot : root.WellPlaced) (s : Scope) :
    (∀ v, ofSketch s (l.rules.sketchRoot root) = .error v → l.rules.Rejects root v) ∧
      ((∀ n, l.rules.InlineBody root n → ¬ n.span.Empty) →
        (∀ run, ¬ l.rules.Reaches root (some run.span) (.attachments run)) →
        ∃ f, ofSketch s (l.rules.sketchRoot root) = .ok f) := by
  have rejects : ∀ v, ofSketch s (l.rules.sketchRoot root) = .error v → l.rules.Rejects root v :=
    fun v hv => ((refused_of_ofSketch hroot hv).rejects hroot).1
  constructor
  · exact rejects
  · intro solid apart
    cases h : ofSketch s (l.rules.sketchRoot root) with
    | ok f => exact ⟨f, rfl⟩
    | error v =>
      cases rejects v h with
      | inline hb he => exact absurd he (solid _ hb)
      | attachments hr => exact absurd hr (apart _)

theorem rejects_emptyBranch : emptyBranch.WellPlaced ∧
    Language.php.rules.Rejects emptyBranch (.emptySpan "empty_statement" ⟨34, 34⟩) :=
  ⟨wellPlaced_emptyBranch,
    (rejects_of_ofSketch wellPlaced_emptyBranch ⟨⟨0, 35⟩, .intersecting⟩).1 _ ofSketch_emptyBranch⟩

/-- Statements that are missing or cover no text are passed over, except for those in place of a
block. One of those that a query meets from both sides leaves a tree unbuilt, and so do attachments
that take up all of the statement around them; nothing else does. -/
theorem unbuilt_iff {l : Language} (hroot : root.WellPlaced) (s : Scope) :
    (∀ outer start n, l.rules.Reaches root outer (.statement start n) →
      n.isEmpty = true ∨ n.missing = true → l.rules.InlineBody root n) ∧
    ((∃ v, ofSketch s (l.rules.sketchRoot root) = .error v) ↔ l.rules.Offends root s) ∧
    ∀ f, ofSketch s (l.rules.sketchRoot root) = .ok f →
      ∀ i e, f.get? i = some e → ¬ e.span.Empty := by
  refine ⟨?_, ⟨?_, ?_⟩, ?_⟩
  · intro outer start n h hv
    have void : n.isVoid = true := by
      obtain hv | hv := hv <;> simp [Node.isVoid, hv]
    exact (h.inlineBody_of_isVoid void).2
  · rintro ⟨v, hv⟩
    exact ((refused_of_ofSketch hroot hv).rejects hroot).2
  · intro h
    obtain ⟨v, hv⟩ := exists_refused h
    cases hf : ofSketch s (l.rules.sketchRoot root) with
    | ok f => exact absurd hf (hv.not_ok (wellPlaced_sketchRoot hroot).2)
    | error w => exact ⟨w, rfl⟩
  · intro f hf i e he
    have solid := ((plantAll_grown _ hf).sound sound_empty).fitted.solid (records_of_get? he)
    exact Nat.not_le.2 solid

/-- The query of the whole source comes upon the empty statement, one of its front does not. -/
theorem offends_emptyBranch : emptyBranch.WellPlaced ∧
    Language.php.rules.Offends emptyBranch ⟨⟨0, 35⟩, .intersecting⟩ ∧
    ¬ Language.php.rules.Offends emptyBranch ⟨⟨0, 30⟩, .intersecting⟩ := by
  have built : (ofSketch ⟨⟨0, 30⟩, .intersecting⟩
      (Language.php.rules.sketchRoot emptyBranch)).toBool = true := by
    rw [sketchRoot_emptyBranch]
    rfl
  refine ⟨wellPlaced_emptyBranch, ?_, ?_⟩
  · exact (unbuilt_iff wellPlaced_emptyBranch _).2.1.1 ⟨_, ofSketch_emptyBranch⟩
  · intro h
    obtain ⟨v, hv⟩ := (unbuilt_iff wellPlaced_emptyBranch _).2.1.2 h
    rw [hv] at built
    cases built

/-- A statement without text can leave a tree unbuilt. -/
theorem not_forall_ne_emptySpan : ¬ ∀ (l : Language) (root : Node) (s : Scope), root.WellPlaced →
    ∀ kind span, ofSketch s (l.rules.sketchRoot root) ≠ .error (.emptySpan kind span) := by
  intro h
  exact h .php emptyBranch ⟨⟨0, 35⟩, .intersecting⟩ wellPlaced_emptyBranch _ _ ofSketch_emptyBranch

end Forest

end StatementOutline
