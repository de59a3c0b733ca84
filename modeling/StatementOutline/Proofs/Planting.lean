import StatementOutline.Proofs.Layout
import StatementOutline.Proofs.Records
import StatementOutline.Scope

/-!
# What planting does

Planting a sketch is a series of pushes, and what a single sketch can come to is said once, case by
case. A planting that succeeds makes a forest grow: it adds admitted statements under one parent,
and below each compound one it plants again.

* `Extends`: a forest with records behind those of another;
* `Grown`: the forests that planting under a parent can lead to, whatever the sketch;
* `plantAll_grown`: planting leads to such a forest;
* `Grown.extends`, `Grown.sound`, `Grown.compoundParents`: what all of them have in common;
* `plant_within`: what a well placed sketch adds lies inside that sketch.
-/

namespace StatementOutline.Forest

open Record

variable {s : Scope} {parent : Option Nat} {f g h : Forest} {kind : String} {span : Span}
  {k : Sketch} {ks body : List Sketch} {v : Violation}

/-! ## What one sketch comes to -/

theorem plantSimple_cases (hg : f.plantSimple s parent kind span = .ok g) :
    (¬ (s.Admits span false ∧ f.merges span parent = false) ∧ g = f) ∨
      (s.Admits span false ∧ f.merges span parent = false ∧
        f.push kind span false parent = .ok g) := by
  unfold plantSimple at hg
  split at hg
  · next hp => exact .inr ⟨hp.1, by simpa using hp.2, hg⟩
  · next hp => exact .inl ⟨by simpa using hp, by simpa using hg.symm⟩

theorem plantRun_cases {run : Run} (hg : f.plantRun s parent run = .ok g) :
    (¬ s.Admits run.span false ∧ g = f) ∨
      (s.Admits run.span false ∧ f.push run.kind run.span false parent = .ok g) := by
  unfold plantRun at hg
  split at hg
  · next hp => exact .inr ⟨hp, hg⟩
  · next hp => exact .inl ⟨hp, by simpa using hg.symm⟩

theorem plant_group_cases (hg : plant s parent (.group span body) f = .ok g) :
    (¬ s.query.Meets span ∧ g = f) ∨
      (s.query.Meets span ∧ plantAll s parent body f = .ok g) := by
  unfold plant at hg
  split at hg
  · next hm => exact .inr ⟨hm, hg⟩
  · next hm => exact .inl ⟨hm, by simpa using hg.symm⟩

theorem plant_compound_cases (hg : plant s parent (.compound kind span body) f = .ok g) :
    (¬ s.Admits span true ∧ g = f) ∨
      (s.Admits span true ∧ f.merges span parent = true ∧ plantAll s parent body f = .ok g) ∨
      (s.Admits span true ∧ f.merges span parent = false ∧
        ∃ h, f.push kind span true parent = .ok h ∧ plantAll s (some f.size) body h = .ok g) := by
  unfold plant at hg
  split at hg
  · next ha =>
    split at hg
    · next hm => exact .inr (.inl ⟨ha, hm, hg⟩)
    · next hm =>
      split at hg
      · cases hg
      · next h hp => exact .inr (.inr ⟨ha, by simpa using hm, h, hp, hg⟩)
  · next ha => exact .inl ⟨ha, by simpa using hg.symm⟩

/-! Only a push can fail. -/

theorem plantSimple_error (hv : f.plantSimple s parent kind span = .error v) :
    s.Admits span false ∧ f.merges span parent = false ∧
      f.push kind span false parent = .error v := by
  unfold plantSimple at hv
  split at hv
  · next hp => exact ⟨hp.1, by simpa using hp.2, hv⟩
  · cases hv

theorem plantRun_error {run : Run} (hv : f.plantRun s parent run = .error v) :
    s.Admits run.span false ∧ f.push run.kind run.span false parent = .error v := by
  unfold plantRun at hv
  split at hv
  · next hp => exact ⟨hp, hv⟩
  · cases hv

theorem plant_group_error (hv : plant s parent (.group span body) f = .error v) :
    plantAll s parent body f = .error v := by
  unfold plant at hv
  split at hv
  · exact hv
  · cases hv

theorem plant_compound_error (hv : plant s parent (.compound kind span body) f = .error v) :
    s.Admits span true ∧
      (f.merges span parent = true ∧ plantAll s parent body f = .error v ∨
        f.merges span parent = false ∧
          (f.push kind span true parent = .error v ∨
            ∃ g, f.push kind span true parent = .ok g ∧
              plantAll s (some f.size) body g = .error v)) := by
  unfold plant at hv
  split at hv
  · next ha =>
    refine ⟨ha, ?_⟩
    split at hv
    · next hm => exact .inl ⟨hm, hv⟩
    · next hm =>
      refine .inr ⟨by simpa using hm, ?_⟩
      split at hv
      · next w hp =>
        cases hv
        exact .inl hp
      · next g hp => exact .inr ⟨g, hp, hv⟩
  · cases hv

@[simp]
theorem plantAll_nil : plantAll s parent [] f = .ok f := by
  rw [plantAll]

theorem plantAll_cons_ok :
    plantAll s parent (k :: ks) f = .ok g ↔
      ∃ h, plant s parent k f = .ok h ∧ plantAll s parent ks h = .ok g := by
  rw [plantAll]
  cases plant s parent k f <;> simp

theorem plantAll_cons_error :
    plantAll s parent (k :: ks) f = .error v ↔
      plant s parent k f = .error v ∨
        ∃ h, plant s parent k f = .ok h ∧ plantAll s parent ks h = .error v := by
  rw [plantAll]
  cases plant s parent k f <;> simp

@[simp]
theorem plantAll_singleton : plantAll s parent [k] f = plant s parent k f := by
  rw [plantAll]
  cases plant s parent k f <;> simp

/-- Several sketches are planted after several others. -/
theorem plantAll_append_ok {ls : List Sketch} :
    plantAll s parent (ks ++ ls) f = .ok g ↔
      ∃ h, plantAll s parent ks f = .ok h ∧ plantAll s parent ls h = .ok g := by
  induction ks generalizing f with
  | nil => simp
  | cons k ks ih =>
    rw [List.cons_append, plantAll_cons_ok]
    constructor
    · rintro ⟨h₁, hk, hrest⟩
      obtain ⟨h₂, hks, hls⟩ := ih.1 hrest
      exact ⟨h₂, plantAll_cons_ok.2 ⟨h₁, hk, hks⟩, hls⟩
    · rintro ⟨h₂, hks, hls⟩
      obtain ⟨h₁, hk, hks⟩ := plantAll_cons_ok.1 hks
      exact ⟨h₁, hk, ih.2 ⟨h₂, hks, hls⟩⟩

/-! ## Growing forests -/

/-- The second forest has all records of the first, and those behind them have a property. -/
def Extends (P : Record → Prop) (f g : Forest) : Prop :=
  ∃ new, g.records = f.records ++ new ∧ ∀ r ∈ new, P r

section
variable {P Q : Record → Prop}

theorem Extends.refl : Extends P f f :=
  ⟨[], by simp, by simp⟩

theorem Extends.trans (h₁ : Extends P f g) (h₂ : Extends P g h) : Extends P f h := by
  obtain ⟨new, hnew, hP⟩ := h₁
  obtain ⟨new', hnew', hP'⟩ := h₂
  refine ⟨new ++ new', by rw [hnew', hnew, List.append_assoc], ?_⟩
  intro r hr
  obtain hr | hr := List.mem_append.1 hr
  · exact hP r hr
  · exact hP' r hr

theorem Extends.mono (h : Extends P f g) (hPQ : ∀ r, P r → Q r) : Extends Q f g := by
  obtain ⟨new, hnew, hP⟩ := h
  exact ⟨new, hnew, fun r hr => hPQ r (hP r hr)⟩

theorem extends_of_push {compound : Bool} (hp : f.push kind span compound parent = .ok g)
    (hP : P ⟨kind, span, compound, parent⟩) : Extends P f g := by
  refine ⟨_, records_of_push hp, ?_⟩
  intro r hr
  obtain rfl := List.mem_singleton.1 hr
  exact hP

theorem Extends.forall_of_empty (h : Extends P empty f) : ∀ r ∈ f.records, P r := by
  obtain ⟨new, hnew, hP⟩ := h
  rwa [hnew, records_empty, List.nil_append]

theorem Extends.getElem? (h : Extends P f g) {i : Nat} {r : Record}
    (hr : f.records[i]? = some r) : g.records[i]? = some r := by
  obtain ⟨new, hnew, -⟩ := h
  rw [hnew]
  exact getElem?_append_some hr

theorem Extends.size_le (h : Extends P f g) : f.size ≤ g.size := by
  obtain ⟨new, hnew, -⟩ := h
  rw [← length_records, ← length_records, hnew, List.length_append]
  exact Nat.le_add_right _ _

end

/-- The second forest comes from the first by planting under `parent`. -/
inductive Grown (s : Scope) : Option Nat → Forest → Forest → Prop
  | refl {parent : Option Nat} {f : Forest} : Grown s parent f f
  /-- A statement without a block, and then the rest. -/
  | leaf {parent : Option Nat} {f g h : Forest} {kind : String} {span : Span} :
      s.Admits span false → f.push kind span false parent = .ok g → Grown s parent g h →
      Grown s parent f h
  /-- A compound statement with what is planted below it, and then the rest. -/
  | nest {parent : Option Nat} {f g h i : Forest} {kind : String} {span : Span} :
      s.Admits span true → f.push kind span true parent = .ok g → Grown s (some f.size) g h →
      Grown s parent h i → Grown s parent f i

theorem Grown.trans (a : Grown s parent f g) (b : Grown s parent g h) : Grown s parent f h := by
  induction a with
  | refl => exact b
  | leaf ha hp _ ih => exact .leaf ha hp (ih b)
  | nest ha hp below _ _ ih => exact .nest ha hp below (ih b)

mutual
theorem plant_grown : ∀ (k : Sketch) {parent : Option Nat} {f g : Forest},
    plant s parent k f = .ok g → Grown s parent f g
  | .simple kind span, parent, f, g, hg => by
    rw [plant] at hg
    obtain ⟨-, rfl⟩ | ⟨ha, -, hp⟩ := plantSimple_cases hg
    · exact .refl
    · exact .leaf ha hp .refl
  | .fragment span, parent, f, g, hg => by
    rw [plant] at hg
    obtain ⟨-, rfl⟩ | ⟨ha, -, hp⟩ := plantSimple_cases hg
    · exact .refl
    · exact .leaf ha hp .refl
  | .attachments run, parent, f, g, hg => by
    rw [plant] at hg
    obtain ⟨-, rfl⟩ | ⟨ha, hp⟩ := plantRun_cases hg
    · exact .refl
    · exact .leaf ha hp .refl
  | .group span body, parent, f, g, hg => by
    obtain ⟨-, rfl⟩ | ⟨-, hb⟩ := plant_group_cases hg
    · exact .refl
    · exact plantAll_grown body hb
  | .compound kind span body, parent, f, g, hg => by
    obtain ⟨-, rfl⟩ | ⟨-, -, hb⟩ | ⟨ha, -, h, hp, hb⟩ := plant_compound_cases hg
    · exact .refl
    · exact plantAll_grown body hb
    · exact .nest ha hp (plantAll_grown body hb) .refl

theorem plantAll_grown : ∀ (ks : List Sketch) {parent : Option Nat} {f g : Forest},
    plantAll s parent ks f = .ok g → Grown s parent f g
  | [], parent, f, g, hg => by
    obtain rfl : f = g := by simpa using hg
    exact .refl
  | k :: ks, parent, f, g, hg => by
    obtain ⟨h, hk, hks⟩ := plantAll_cons_ok.1 hg
    exact (plant_grown k hk).trans (plantAll_grown ks hks)
end

/-- All that planting adds is admitted. -/
theorem Grown.extends (h : Grown s parent f g) :
    Extends (fun r => s.Admits r.span r.compound) f g := by
  induction h with
  | refl => exact .refl
  | leaf ha hp _ ih => exact (extends_of_push hp ha).trans ih
  | nest ha hp _ _ ih₁ ih₂ => exact (extends_of_push hp ha).trans (ih₁.trans ih₂)

theorem Grown.getElem? (h : Grown s parent f g) {i : Nat} {r : Record}
    (hr : f.records[i]? = some r) : g.records[i]? = some r :=
  h.extends.getElem? hr

/-- The record is put under the parent, or under a record at the position or behind it. -/
def HangsFrom (parent : Option Nat) (n : Nat) (r : Record) : Prop :=
  r.parent = parent ∨ ∃ p, r.parent = some p ∧ n ≤ p

theorem HangsFrom.earlier {m n : Nat} {r : Record} (h : HangsFrom parent n r) (hmn : m ≤ n) :
    HangsFrom parent m r := by
  obtain hr | ⟨p, hr, hp⟩ := h
  · exact .inl hr
  · exact .inr ⟨p, hr, Nat.le_trans hmn hp⟩

/-- All that planting adds hangs on the parent or on what has been added before. -/
theorem Grown.hangsFrom (h : Grown s parent f g) : Extends (HangsFrom parent f.size) f g := by
  induction h with
  | refl => exact .refl
  | @leaf parent f g h kind span _ hp _ ih =>
    have first := extends_of_push hp (P := HangsFrom parent f.size) (.inl rfl)
    exact first.trans (ih.mono fun r hr => hr.earlier first.size_le)
  | @nest parent f g h i kind span _ hp _ _ ih₁ ih₂ =>
    have first := extends_of_push hp (P := HangsFrom parent f.size) (.inl rfl)
    have below : Extends (HangsFrom parent f.size) g h := ih₁.mono fun r hr => by
      obtain hr | ⟨p, hr, hp⟩ := hr
      · exact .inr ⟨f.size, hr, Nat.le_refl _⟩
      · exact .inr ⟨p, hr, Nat.le_trans first.size_le hp⟩
    have both := first.trans below
    exact both.trans (ih₂.mono fun r hr => hr.earlier both.size_le)

theorem Grown.sound (h : Grown s parent f g) (hf : f.Sound) : g.Sound := by
  induction h with
  | refl => exact hf
  | leaf _ hp _ ih => exact ih (hf.push hp)
  | nest _ hp _ _ ih₁ ih₂ => exact ih₂ (ih₁ (hf.push hp))

/-! ## Parents are compound -/

/-- Statements stand only below compound ones. -/
def CompoundParents (f : Forest) : Prop :=
  ∀ (i : Nat) r, f.records[i]? = some r → Holder Record.compound f.records r.parent

theorem Grown.holder (h : Grown s parent f g) {keep : Record → Bool} {q : Option Nat}
    (hq : Holder keep f.records q) : Holder keep g.records q := by
  intro p hp
  obtain ⟨outer, ho, hk⟩ := hq p hp
  exact ⟨outer, h.getElem? ho, hk⟩

theorem holder_of_push {compound : Bool} {keep : Record → Bool}
    (hp : f.push kind span compound parent = .ok g) (hk : keep ⟨kind, span, compound, parent⟩) :
    Holder keep g.records (some f.size) := by
  rintro p ⟨⟩
  exact ⟨_, getElem?_records_of_push hp, hk⟩

theorem CompoundParents.push {compound : Bool} (hf : f.CompoundParents)
    (hc : Holder Record.compound f.records parent) (hp : f.push kind span compound parent = .ok g) :
    g.CompoundParents := by
  have hrec := records_of_push hp
  intro i r hr
  rw [hrec] at hr ⊢
  obtain hr | ⟨-, rfl⟩ := getElem?_concat_cases hr
  · exact (hf i r hr).append
  · exact hc.append

theorem Grown.compoundParents (h : Grown s parent f g)
    (hc : Holder Record.compound f.records parent) (hf : f.CompoundParents) :
    g.CompoundParents := by
  induction h with
  | refl => exact hf
  | leaf ha hp _ ih => exact ih ((Grown.leaf ha hp .refl).holder hc) (hf.push hc hp)
  | nest ha hp below _ ih₁ ih₂ =>
    have hg := ih₁ (holder_of_push hp rfl) (hf.push hc hp)
    exact ih₂ ((Grown.nest ha hp below .refl).holder hc) hg

/-! ## What is planted lies inside its sketch -/

/-- What is added lies between two offsets. -/
abbrev Within (lo hi : Nat) (f g : Forest) : Prop :=
  Extends (fun r => lo ≤ r.span.start ∧ r.span.stop ≤ hi) f g

section
variable {lo lo' hi hi' : Nat}

theorem Within.widen (h : Within lo hi f g) (hlo : lo' ≤ lo) (hhi : hi ≤ hi') :
    Within lo' hi' f g :=
  h.mono fun _ hr => ⟨Nat.le_trans hlo hr.1, Nat.le_trans hr.2 hhi⟩

theorem within_of_push {compound : Bool} (hp : f.push kind span compound parent = .ok g) :
    Within span.start span.stop f g :=
  extends_of_push hp ⟨Nat.le_refl _, Nat.le_refl _⟩

theorem plantSimple_within (hg : f.plantSimple s parent kind span = .ok g) :
    Within span.start span.stop f g := by
  obtain ⟨-, rfl⟩ | ⟨-, -, hp⟩ := plantSimple_cases hg
  · exact .refl
  · exact within_of_push hp

mutual
theorem plant_within : ∀ (k : Sketch) {parent : Option Nat} {f g : Forest}, k.WellPlaced →
    plant s parent k f = .ok g → Within k.span.start k.span.stop f g
  | .simple kind span, parent, f, g, hk, hg => by
    rw [plant] at hg
    exact plantSimple_within hg
  | .fragment span, parent, f, g, hk, hg => by
    rw [plant] at hg
    exact plantSimple_within hg
  | .attachments run, parent, f, g, hk, hg => by
    rw [plant] at hg
    obtain ⟨-, rfl⟩ | ⟨-, hp⟩ := plantRun_cases hg
    · exact .refl
    · exact within_of_push hp
  | .group span body, parent, f, g, hk, hg => by
    rw [Sketch.WellPlaced] at hk
    obtain ⟨-, rfl⟩ | ⟨-, hb⟩ := plant_group_cases hg
    · exact .refl
    · exact plantAll_within body hk.1 hk.2 hb
  | .compound kind span body, parent, f, g, hk, hg => by
    rw [Sketch.WellPlaced] at hk
    obtain ⟨-, rfl⟩ | ⟨-, -, hb⟩ | ⟨-, -, h, hp, hb⟩ := plant_compound_cases hg
    · exact .refl
    · exact plantAll_within body hk.1 hk.2 hb
    · exact (within_of_push hp).trans (plantAll_within body hk.1 hk.2 hb)

theorem plantAll_within : ∀ (ks : List Sketch) {parent : Option Nat} {f g : Forest} {lo hi : Nat},
    Row lo hi (ks.map Sketch.span) → Sketch.AllWellPlaced ks → plantAll s parent ks f = .ok g →
    Within lo hi f g
  | [], parent, f, g, lo, hi, _, _, hg => by
    obtain rfl : f = g := by simpa using hg
    exact .refl
  | k :: ks, parent, f, g, lo, hi, ⟨a, b, c⟩, hw, hg => by
    rw [Sketch.AllWellPlaced] at hw
    obtain ⟨h, hk, hks⟩ := plantAll_cons_ok.1 hg
    have first := (plant_within k hw.1 hk).widen a c.le
    have rest := (plantAll_within ks c hw.2 hks).widen (Nat.le_trans a b) (Nat.le_refl _)
    exact first.trans rest
end

end

end StatementOutline.Forest
