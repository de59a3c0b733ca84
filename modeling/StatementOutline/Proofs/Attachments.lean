import StatementOutline.Grammar.Profile
import StatementOutline.Proofs.Members
import StatementOutline.Proofs.Origins
import StatementOutline.Proofs.Simple

/-!
# Attachments

Attachments become part of the statement behind them, or a statement of their own where none
follows. From the first attachment to that statement, or to the last attachment, there is no member
of the block but attachments and members that are skipped. A skipped member is no statement, so
attachments reach past it: those of two variants of a Rust enumeration come to one statement.

* `Leads`: from one offset to another there are only attachments and skipped members;
* `led_of_mem_blockPieces`: which pieces of a block start with attachments;
* `Forest.led_of_ofSketch`: the same of all statements of a built forest.
-/

namespace StatementOutline

/-- The piece starts with its node or with a fragment, not with attachments. -/
def Piece.Bare : Piece → Prop
  | statement start n => start = n.start
  | attachments _ => False
  | fragment _ | group _ | block _ => True

namespace Rules

open Piece

variable {r : Rules} {b n : Node} {frag : Option Span} {p : Piece}

theorem bare_of_mem_ofFragment (h : p ∈ ofFragment frag) : p.Bare := by
  cases frag with
  | none => simp [ofFragment] at h
  | some s =>
    obtain rfl := List.mem_singleton.1 h
    trivial

/-- Errors have no attachments. -/
theorem bare_of_mem_regionPieces (h : p ∈ r.regionPieces n) : p.Bare :=
  forall_mem_cut (fun _ _ => rfl) (fun _ _ => trivial) (fun _ _ _ _ => trivial)
    (by simp [ofFragment]) p h

/-- From where the span starts to where it stops attachments lead, the first of which starts there,
and no other members of the block stand in between but skipped ones. -/
structure Leads (r : Rules) (b : Node) (span : Span) : Prop where
  first : ∃ a ∈ b.children, a.isMember = true ∧ r.roleIn b a = .attachment ∧ a.start = span.start
  only : ∀ d ∈ b.children, d.isMember = true → span.start < d.stop → d.start < span.stop →
    r.roleIn b d = .attachment ∨ r.roleIn b d = .skipped

/-- The statement is a member of the block, and the attachments in front of it are part of it. -/
def Fuses (r : Rules) (b : Node) (start : Nat) (n : Node) : Prop :=
  n ∈ b.children ∧ n.isMember = true ∧ (r.roleIn b n).isStatement = true ∧
    r.Leads b ⟨start, n.start⟩

/-- The run goes from the first of some attachments of the block to the end of the last. -/
def StandsAlone (r : Rules) (b : Node) (run : Run) : Prop :=
  r.Leads b run.span ∧ ∃ z ∈ b.children, z.isMember = true ∧ r.roleIn b z = .attachment ∧
    z.stop = run.span.stop

/-- The pieces of the block that start with attachments. -/
inductive Led (r : Rules) (b : Node) : Piece → Prop
  | statement {start : Nat} {n : Node} : r.Fuses b start n → Led r b (.statement start n)
  | attachments {run : Run} : r.StandsAlone b run → Led r b (.attachments run)

/-- What the walk says of the children, said of the offsets. -/
theorem Strings.leads {rn : Run} {front cs back : List Node} {stop : Nat} (h : r.Strings b cs rn)
    (hb : b.WellPlaced) (hsplit : b.children = front ++ (cs ++ back))
    (hback : ∀ d ∈ back, stop ≤ d.start) : r.Leads b ⟨rn.span.start, stop⟩ := by
  obtain ⟨a, rest, rfl, ham, ha, -, hstart⟩ := h.first
  refine ⟨⟨a, by simp [hsplit], ham, ha, hstart.symm⟩, ?_⟩
  intro d hd hdm hlo hhi
  have hlo : a.start < d.stop := hstart ▸ hlo
  have hhi : d.start < stop := hhi
  rw [hsplit, List.mem_append, List.mem_append] at hd
  rcases hd with hd | hd | hd
  · have := hb.stop_le_of_split hsplit hd
    omega
  · exact h.only d hd hdm
  · have := hback d hd
    omega

theorem Waits.fuses {rn : Run} {before after : List Node} (h : r.Waits b before rn)
    (hb : b.WellPlaced) (hsplit : b.children = before ++ n :: after) (hm : n.isMember = true)
    (hn : (r.roleIn b n).isStatement = true) : r.Fuses b rn.span.start n := by
  obtain ⟨front, cs, rfl, hcs⟩ := h
  refine ⟨by simp [hsplit], hm, hn, ?_⟩
  refine hcs.leads hb (by rw [hsplit, List.append_assoc]) fun d hd => ?_
  rcases List.mem_cons.1 hd with rfl | hd
  · exact Nat.le_refl _
  · have hle := (hb.of_mem (c := n) (by simp [hsplit])).start_le_stop
    exact Nat.le_trans hle (hb.le_start_of_split hsplit hd)

theorem Waits.standsAlone {rn : Run} {before after : List Node} (h : r.Waits b before rn)
    (hb : b.WellPlaced) (hsplit : b.children = before ++ after) : r.StandsAlone b rn := by
  obtain ⟨front, cs, rfl, hcs⟩ := h
  obtain ⟨z, hz, hzm, hza, hstop⟩ := hcs.last
  have hsplit : b.children = front ++ (cs ++ after) := by rw [hsplit, List.append_assoc]
  refine ⟨?_, z, by simp [hsplit, hz], hzm, hza, hstop.symm⟩
  refine hcs.leads hb hsplit fun d hd => ?_
  obtain ⟨cs₁, cs₂, rfl⟩ := List.append_of_mem hz
  have hlast : b.children = (front ++ cs₁) ++ z :: (cs₂ ++ after) := by simp [hsplit]
  rw [hstop]
  exact hb.le_start_of_split hlast (by simp [hd])

/-- A piece of a block that starts with attachments is one of these. -/
theorem led_of_mem_blockPieces (hb : b.WellPlaced) (h : p ∈ r.blockPieces b) :
    p.Bare ∨ r.Led b p := by
  have alone : ∀ {before after ps run frag}, r.Walks b before ps run frag →
      b.children = before ++ after → p ∈ ofRun run → r.Led b p := by
    intro before after ps run frag hwalk hsplit hp
    cases run with
    | none => simp [ofRun] at hp
    | some rn =>
      obtain rfl := List.mem_singleton.1 hp
      exact .attachments ((hwalk.waits rfl).2.standsAlone hb hsplit)
  rcases mem_blockPieces_cases h with
    ⟨before, c, after, ps, run, frag, qs, run', frag', hsplit, hwalk, htake, hp⟩ |
    ⟨ps, run, frag, hwalk, hp | hp⟩
  · cases htake with
    | pass => simp at hp
    | absorb =>
      obtain rfl := List.mem_singleton.1 hp
      exact .inl trivial
    | attach | skip => exact .inl (bare_of_mem_ofFragment hp)
    | statement hm hrole =>
      rcases List.mem_append.1 hp with hp | hp
      · exact .inl (bare_of_mem_ofFragment hp)
      · obtain rfl := List.mem_singleton.1 hp
        cases run with
        | none => exact .inl rfl
        | some rn =>
          have hn : (r.roleIn b c).isStatement = true := by rw [hrole]; rfl
          exact .inr (.statement ((hwalk.waits rfl).2.fuses hb hsplit hm hn))
    | group =>
      simp only [List.mem_append, List.mem_singleton] at hp
      rcases hp with hp | hp | rfl
      · exact .inl (bare_of_mem_ofFragment hp)
      · exact .inr (alone hwalk hsplit hp)
      · exact .inl trivial
    | recover =>
      simp only [List.mem_append] at hp
      rcases hp with hp | hp | hp
      · exact .inl (bare_of_mem_ofFragment hp)
      · exact .inr (alone hwalk hsplit hp)
      · exact .inl (bare_of_mem_regionPieces (List.mem_append_left _ hp))
  · exact .inl (bare_of_mem_ofFragment hp)
  · exact .inr (alone hwalk (List.append_nil _).symm hp)

end Rules

namespace Forest

variable {s : Scope} {f : Forest} {root : Node} {i : Nat} {e : Entry}

/-- Whatever the language and the scope, a statement of a built forest starts with its node or with
a fragment, or else attachments of one block lead up to it, or are all of it. In between no other
members stand but those that are skipped. -/
theorem led_of_ofSketch {l : Language} (hroot : root.WellPlaced)
    (h : ofSketch s (l.rules.sketchRoot root) = .ok f) (he : f.get? i = some e) :
    ∃ outer p, l.rules.Reaches root outer p ∧ l.rules.Gives p e.record ∧
      (p.Bare ∨ ∃ b, l.rules.Reads root outer b ∧ l.rules.Led b p) := by
  obtain ⟨outer, p, hp, hgives⟩ := Rules.exists_gives_of_get? h he
  refine ⟨outer, p, hp, hgives, ?_⟩
  rcases hp.source with ⟨b, hb, hpb⟩ | ⟨e, -, hpe⟩ | ⟨n, rfl⟩
  · rcases Rules.led_of_mem_blockPieces (hb.wellPlaced hroot) hpb with bare | led
    · exact .inl bare
    · exact .inr ⟨b, hb, led⟩
  · exact .inl (Rules.bare_of_mem_regionPieces hpe)
  · exact .inl rfl

/-! ## Attributes of variants

In the Rust enumeration `enum F { #[x] A, #[y] B }` each variant has an attribute. -/

/-- A Rust attribute with a name of one byte. -/
def attributeItem (start : Nat) : Node :=
  .mk ⟨"attribute_item", none, ⟨start, start + 4⟩, true, false, false, false, false⟩ [
    token "#" start,
    token "[" (start + 1),
    .mk ⟨"attribute", none, ⟨start + 2, start + 3⟩, true, false, false, false, false⟩ [
      identifier none (start + 2)],
    token "]" (start + 3)]

/-- A variant with a name of one byte. -/
def variant (start : Nat) : Node :=
  .mk ⟨"enum_variant", none, ⟨start, start + 1⟩, true, false, false, false, false⟩ [
    identifier (some "name") start]

def variants : Node :=
  .mk ⟨"enum_variant_list", some "body", ⟨7, 25⟩, true, false, false, false, false⟩ [
    token "\x7b" 7, attributeItem 9, variant 14, token "," 15, attributeItem 17, variant 22,
    token "\x7d" 24]

def enumeration : Node :=
  .mk ⟨"enum_item", none, ⟨0, 25⟩, true, false, false, false, false⟩ [
    .mk ⟨"enum", none, ⟨0, 4⟩, false, false, false, false, false⟩ [],
    .mk ⟨"type_identifier", some "name", ⟨5, 6⟩, true, false, false, false, false⟩ [],
    variants]

def enumRoot : Node :=
  .mk ⟨"source_file", none, ⟨0, 25⟩, true, false, false, false, false⟩ [enumeration]

/-- The forest of that source. One statement has both attributes, and the first variant. -/
def enumForest : Forest :=
  ⟨#[⟨"enum_item", ⟨0, 25⟩, true, none, #[1]⟩, ⟨"attribute_item", ⟨9, 21⟩, false, some 0, #[]⟩],
    #[0]⟩

theorem wellPlaced_enumRoot : enumRoot.WellPlaced := by decide

theorem blockPieces_variants :
    Language.rust.rules.blockPieces variants = [.attachments ⟨"attribute_item", ⟨9, 21⟩⟩] :=
  rfl

theorem partsOf_enumeration : Language.rust.rules.partsOf enumeration = [.block variants] := by
  have hbody : Language.rust.rules.body? enumeration.kind = some (.fields ["body"]) := rfl
  rw [Rules.partsOf, hbody]
  dsimp only
  rw [Rules.parts]
  rfl

theorem isCompound_enumeration : Language.rust.rules.isCompound enumeration = true := by
  rw [Rules.isCompound, partsOf_enumeration]
  rfl

theorem ofSketch_enum :
    ofSketch ⟨⟨0, 25⟩, .intersecting⟩ (Language.rust.rules.sketchRoot enumRoot) =
      .ok enumForest := by
  have hroot : Language.rust.rules.rootPieces enumRoot = [.statement 0 enumeration] := rfl
  have hinner : Language.rust.rules.inner (.statement 0 enumeration) =
      [.attachments ⟨"attribute_item", ⟨9, 21⟩⟩] := by
    rw [Rules.inner, if_pos isCompound_enumeration, partsOf_enumeration, List.flatMap_singleton]
    exact blockPieces_variants
  have hsketch : Language.rust.rules.sketchRoot enumRoot =
      [.compound "enum_item" ⟨0, 25⟩ [.attachments ⟨"attribute_item", ⟨9, 21⟩⟩]] := by
    rw [Rules.sketchRoot, hroot, Rules.sketchAll, List.flatMap_singleton, Rules.sketch_eq]
    simp only [isCompound_enumeration, if_true, hinner, Rules.sketchAll, List.flatMap_singleton]
    rw [Rules.sketch_eq]
    rfl
  rw [hsketch]
  rfl

theorem led_enum : enumRoot.WellPlaced ∧
    ofSketch ⟨⟨0, 25⟩, .intersecting⟩ (Language.rust.rules.sketchRoot enumRoot) =
      .ok enumForest ∧
    enumForest.get? 1 = some ⟨"attribute_item", ⟨9, 21⟩, false, some 0, #[]⟩ ∧
    ∃ outer p, Language.rust.rules.Reaches enumRoot outer p ∧
      Language.rust.rules.Gives p ⟨"attribute_item", ⟨9, 21⟩, false, some 0⟩ ∧
      (p.Bare ∨ ∃ b, Language.rust.rules.Reads enumRoot outer b ∧
        Language.rust.rules.Led b p) := by
  have second : enumForest.get? 1 = some ⟨"attribute_item", ⟨9, 21⟩, false, some 0, #[]⟩ := rfl
  exact ⟨wellPlaced_enumRoot, ofSketch_enum, second,
    led_of_ofSketch wellPlaced_enumRoot ofSketch_enum second⟩

/-- The attributes of both variants are one statement, and the first variant stands in it. -/
theorem not_forall_attachment : ¬ ∀ (l : Language) (root : Node) (s : Scope) (f : Forest),
    root.WellPlaced → ofSketch s (l.rules.sketchRoot root) = .ok f →
    ∀ outer b run, l.rules.Reads root outer b → .attachments run ∈ l.rules.blockPieces b →
    ∀ d ∈ b.children, d.isMember = true → run.span.start < d.stop → d.start < run.span.stop →
      l.rules.roleIn b d = .attachment := by
  intro h
  have hread : Language.rust.rules.Reads enumRoot (some ⟨0, 25⟩) variants :=
    .part (.top (List.mem_singleton_self _)) isCompound_enumeration
      (by rw [partsOf_enumeration]; exact List.mem_singleton_self _)
  have hrun : .attachments ⟨"attribute_item", ⟨9, 21⟩⟩ ∈
      Language.rust.rules.blockPieces variants := by
    rw [blockPieces_variants]
    exact List.mem_singleton_self _
  have only := h .rust enumRoot _ enumForest wellPlaced_enumRoot ofSketch_enum _ variants _ hread
    hrun (variant 14) (by simp [variants, Node.children]) rfl (by decide) (by decide)
  exact absurd only (by decide)

end Forest

end StatementOutline
