import StatementOutline.Proofs.Lookup

/-!
# Forests are laminar

A push looks at one parent and at the last of its children, and takes a statement under any older
one. All the same, whatever is pushed in whatever order, statements never overlap halfway: of two
spans one lies inside the other, and then the outer statement is around the inner one, or they have
no text in common.

* `offer`, `offerAll`: the forest after pushes that may be refused;
* `Sound.offer`, `Sound.offerAll`: such a forest is sound;
* `under_or_apart`: two records of a sound forest are one below the other or apart;
* `laminar_of_offerAll`: what holds of a forest after any pushes.
-/

namespace StatementOutline

namespace Record

variable {rs : List Record} {i j : Nat} {a b : Record}

/-- Of two records, in whatever order they were added, one lies below the other, or one ends before
the other starts. -/
theorem under_or_apart (hrs : Fitted rs) (ha : rs[i]? = some a) (hb : rs[j]? = some b)
    (hij : i < j) :
    Under rs i j ∨ a.span.stop ≤ b.span.start ∨ b.span.stop ≤ a.span.start := by
  induction j using Nat.strongRecOn generalizing i a b with
  | ind j ih =>
    cases hp : b.parent with
    | none =>
      obtain ⟨c, x, hx, hxp, hc⟩ := exists_root hrs ha
      exact .inr (.inl (stop_le_of_sibling hrs ha hb hij hx (hxp.trans hp.symm) hc))
    | some p =>
      obtain ⟨hpj, outer, hout, hin⟩ := hrs.inside hb hp
      -- What is apart from the parent is apart from the record.
      rcases Nat.lt_trichotomy i p with hip | rfl | hpi
      · rcases ih p hpj ha hout hip with h | h | h
        · exact .inl (.deeper h hb hp)
        · exact .inr (.inl (Nat.le_trans h hin.1))
        · exact .inr (.inr (Nat.le_trans hin.2.1 h))
      · exact .inl (.child hb hp)
      · rcases ih i hij hout ha hpi with h | h | h
        · obtain ⟨c, x, hx, hxp, hc⟩ := h.exists_child
          exact .inr (.inl (stop_le_of_sibling hrs ha hb hij hx (hxp.trans hp.symm) hc))
        · exact .inr (.inr (Nat.le_trans hin.2.1 h))
        · exact .inr (.inl (Nat.le_trans h hin.1))

/-- Two records are one below the other or apart, whichever was added first. -/
theorem under_or_under_or_apart (hrs : Fitted rs) (ha : rs[i]? = some a) (hb : rs[j]? = some b)
    (hij : i ≠ j) :
    Under rs i j ∨ Under rs j i ∨ a.span.stop ≤ b.span.start ∨ b.span.stop ≤ a.span.start := by
  rcases Nat.lt_or_gt_of_ne hij with hlt | hgt
  · rcases under_or_apart hrs ha hb hlt with h | h
    · exact .inl h
    · exact .inr (.inr h)
  · rcases under_or_apart hrs hb ha hgt with h | h
    · exact .inr (.inl h)
    · exact .inr (.inr h.symm)

/-- A record lies strictly inside another one exactly when it lies below it. -/
theorem strictlyInside_iff_under (hrs : Fitted rs) (ha : rs[i]? = some a) (hb : rs[j]? = some b) :
    b.span.StrictlyInside a.span ↔ Under rs i j := by
  refine ⟨fun hin => ?_, fun h => h.strictlyInside hrs ha hb⟩
  have hij : i ≠ j := by
    rintro rfl
    rw [ha] at hb
    cases hb
    exact hin.2.2 rfl
  have solid := hrs.solid hb
  have lower := hin.1
  have upper := hin.2.1
  rcases under_or_under_or_apart hrs ha hb hij with h | h | h | h
  · exact h
  · exact absurd (h.strictlyInside hrs hb ha) hin.not_symm
  · omega
  · omega

end Record

namespace Forest

open Record

variable {f : Forest} {r : Record}

/-! ## Pushes that may be refused -/

/-- The forest after a push of the record, which is the same as before if the push is refused. -/
def offer (f : Forest) (r : Record) : Forest :=
  match f.push r.kind r.span r.compound r.parent with
  | .ok g => g
  | .error _ => f

/-- The forest after several pushes, some of which may be refused. -/
def offerAll (f : Forest) (rs : List Record) : Forest :=
  rs.foldl offer f

/-- A push puts the record behind the others or leaves the forest as it is. -/
theorem offer_cases (f : Forest) (r : Record) :
    f.push r.kind r.span r.compound r.parent = .ok (f.offer r) ∧
        (f.offer r).records = f.records ++ [r] ∨
      ∃ v, f.push r.kind r.span r.compound r.parent = .error v ∧ f.offer r = f := by
  cases hpush : f.push r.kind r.span r.compound r.parent with
  | ok g =>
    have taken : f.offer r = g := by rw [offer, hpush]
    rw [taken]
    exact .inl ⟨rfl, records_of_push hpush⟩
  | error v => exact .inr ⟨v, rfl, by rw [offer, hpush]⟩

theorem Sound.offer (hf : f.Sound) (r : Record) : (f.offer r).Sound := by
  rcases f.offer_cases r with ⟨taken, -⟩ | ⟨v, -, kept⟩
  · exact hf.push taken
  · rwa [kept]

theorem Sound.offerAll (hf : f.Sound) (rs : List Record) : (f.offerAll rs).Sound := by
  induction rs generalizing f with
  | nil => exact hf
  | cons r rs ih => exact ih (hf.offer r)

/-! ## Laminar forests -/

/-- The lists of children and the parents say the same, children are in order, and spans are nested
as statements are. -/
structure Laminar (f : Forest) : Prop where
  solid : ∀ i e, f.get? i = some e → e.span.start < e.span.stop
  parent_lt : ∀ i e p, f.get? i = some e → e.parent = some p → p < i
  /-- A statement is listed once with its parent, or once at the top, and nowhere else. -/
  listed : ∀ i e, f.get? i = some e → ∀ parent,
    (f.childrenOf parent).toList.count i = if parent = e.parent then 1 else 0
  /-- Nothing but statements is listed. -/
  known : ∀ parent, ∀ i ∈ f.childrenOf parent, i < f.size
  increasing : ∀ parent, (f.childrenOf parent).toList.Pairwise (· < ·)
  /-- A later sibling starts where an earlier one has ended. -/
  after : ∀ parent, (f.childrenOf parent).toList.Pairwise fun i j =>
    ∃ a b, f.get? i = some a ∧ f.get? j = some b ∧ a.span.stop ≤ b.span.start
  nested_or_apart : ∀ i j a b, f.get? i = some a → f.get? j = some b → i ≠ j →
    b.span.StrictlyInside a.span ∨ a.span.StrictlyInside b.span ∨
      a.span.stop ≤ b.span.start ∨ b.span.stop ≤ a.span.start
  /-- A statement lies strictly inside those around it and inside no others. -/
  inside_iff : ∀ i j a b, f.get? i = some a → f.get? j = some b →
    (b.span.StrictlyInside a.span ↔ i ∈ f.ancestors j)
  distinct : ∀ i j a b, f.get? i = some a → f.get? j = some b → a.span = b.span → i = j

theorem Sound.count_childrenOf (hf : f.Sound) {i : Nat} {e : Entry} (he : f.get? i = some e)
    (parent : Option Nat) :
    (f.childrenOf parent).toList.count i = if parent = e.parent then 1 else 0 := by
  have once : (childIds f.records parent).Nodup :=
    (pairwise_childIds f.records parent).imp Nat.ne_of_lt
  rw [hf.linked parent, once.count]
  have mem : i ∈ childIds f.records parent ↔ parent = e.parent := by
    rw [mem_childIds, records_of_get? he]
    constructor
    · rintro ⟨_, ⟨⟩, hp⟩
      exact hp.symm
    · rintro rfl
      exact ⟨e.record, rfl, rfl⟩
  simp only [mem]

theorem Sound.laminar (hf : f.Sound) : f.Laminar := by
  have fitted := hf.fitted
  constructor
  · intro i e he
    exact fitted.solid (records_of_get? he)
  · intro i e p he hp
    exact fitted.parent_lt (records_of_get? he) hp
  · intro i e he parent
    exact hf.count_childrenOf he parent
  · intro parent i hi
    obtain ⟨r, hr, -⟩ := hf.mem_level_iff.1 hi
    rw [← length_records]
    exact (List.getElem?_eq_some_iff.1 hr).1
  · intro parent
    rw [hf.linked parent]
    exact pairwise_childIds f.records parent
  · intro parent
    refine (hf.pairwise_level parent).imp ?_
    rintro i j ⟨x, r, hx, hr, after⟩
    obtain ⟨a, ha, rfl⟩ := exists_of_records hx
    obtain ⟨b, hb, rfl⟩ := exists_of_records hr
    exact ⟨a, b, ha, hb, after⟩
  · intro i j a b ha hb hij
    have hra := records_of_get? ha
    have hrb := records_of_get? hb
    rcases under_or_under_or_apart fitted hra hrb hij with h | h | h
    · exact .inl (h.strictlyInside fitted hra hrb)
    · exact .inr (.inl (h.strictlyInside fitted hrb hra))
    · exact .inr (.inr h)
  · intro i j a b ha hb
    rw [hf.mem_ancestors_iff]
    exact strictlyInside_iff_under fitted (records_of_get? ha) (records_of_get? hb)
  · intro i j a b ha hb same
    by_contra hij
    have hra := records_of_get? ha
    have hrb := records_of_get? hb
    have solid : a.span.start < a.span.stop := fitted.solid hra
    rcases under_or_under_or_apart fitted hra hrb hij with h | h | h | h
    · exact (h.strictlyInside fitted hra hrb).2.2 same.symm
    · exact (h.strictlyInside fitted hrb hra).2.2 same
    · have behind : a.span.stop ≤ b.span.start := h
      rw [← same] at behind
      exact absurd solid (Nat.not_lt.2 behind)
    · have before : b.span.stop ≤ a.span.start := h
      rw [← same] at before
      exact absurd solid (Nat.not_lt.2 before)

/-- Whatever is pushed, and under whatever parents, the forest is laminar, and the next push either
is taken, and puts its record behind the others, or leaves the forest as it is. -/
theorem laminar_of_offerAll (rs : List Record) (r : Record) :
    (empty.offerAll rs).Laminar ∧ empty.offerAll (rs ++ [r]) = (empty.offerAll rs).offer r ∧
      ((empty.offerAll rs).push r.kind r.span r.compound r.parent =
            .ok ((empty.offerAll rs).offer r) ∧
          ((empty.offerAll rs).offer r).records = (empty.offerAll rs).records ++ [r] ∨
        ∃ v, (empty.offerAll rs).push r.kind r.span r.compound r.parent = .error v ∧
          (empty.offerAll rs).offer r = empty.offerAll rs) := by
  have sound := sound_empty.offerAll rs
  have next : empty.offerAll (rs ++ [r]) = (empty.offerAll rs).offer r := by
    rw [offerAll, List.foldl_append]
    rfl
  exact ⟨sound.laminar, next, offer_cases _ r⟩

/-- A statement may come under an older one than the last, but not into a gap that is behind the
last child, nor under a parent that is not there. -/
example : (empty.offerAll [⟨"block", ⟨0, 9⟩, true, none⟩, ⟨"block", ⟨1, 5⟩, true, some 0⟩,
    ⟨"leaf", ⟨6, 8⟩, false, some 0⟩, ⟨"leaf", ⟨2, 3⟩, false, some 1⟩,
    ⟨"leaf", ⟨5, 6⟩, false, some 0⟩, ⟨"leaf", ⟨2, 3⟩, false, some 7⟩]).records.map Record.span =
    [⟨0, 9⟩, ⟨1, 5⟩, ⟨6, 8⟩, ⟨2, 3⟩] := by
  decide

end Forest

end StatementOutline
