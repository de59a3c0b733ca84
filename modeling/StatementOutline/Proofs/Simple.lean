import StatementOutline.Proofs.Origins
import StatementOutline.Proofs.Preorder

/-!
# Simple statements

A node decides by itself whether its statement is compound, and only compound statements have others
inside. A simple statement is an atom: nothing hangs on it, and no other statement shares text with
it but those around it.

* `any_isBlock_parts_of_role`: a node decides alike whether it is met as a member or asked alone;
* `Sound.apart_of_simple`: what a simple statement shares no text with;
* `atomic_of_ofSketch`: the same of all statements of a built forest.
-/

namespace StatementOutline

namespace Rules

variable {r : Rules} {n : Node} {container : Bool} {body : Body}

/-- A member of a kind that is no statement has no body to look into. -/
theorem eq_simple_of_role {kind : String} {error : Bool}
    (h : r.role kind error container = .statement body) (hkind : r.body? kind = none) :
    body = .simple := by
  cases error with
  | true => simp [role] at h
  | false =>
    simp only [role, hkind, Bool.false_eq_true, if_false] at h
    repeat' split at h
    all_goals simp_all

/-- The body that a role gives to a node has a block exactly when the node is compound. -/
theorem any_isBlock_parts_of_role (h : r.role n.kind n.error container = .statement body) :
    (r.parts n body).any Part.isBlock = r.isCompound n := by
  cases hkind : r.body? n.kind with
  | none =>
    obtain rfl := eq_simple_of_role h hkind
    simp [parts, isCompound, partsOf, hkind]
  | some b =>
    have same : b = body := by
      cases herror : n.error <;> simp_all [role]
    simp [isCompound, partsOf, hkind, same]

variable {p : Piece} {x : Record}

theorem Gives.compound_eq {start : Nat} (h : r.Gives (.statement start n) x) :
    x.compound = r.isCompound n := by
  cases h
  rfl

/-- What has no node is simple. -/
theorem Gives.simple (h : r.Gives p x) (hp : p.node? = none) : x.compound = false := by
  cases h with
  | statement => simp [Piece.node?] at hp
  | fragment | attachments => rfl

end Rules

namespace Forest

open Record

variable {s : Scope} {f : Forest} {i j : Nat} {a b : Record}

/-- Nothing lies below a simple statement. -/
theorem CompoundParents.not_under (hc : f.CompoundParents) (ha : f.records[i]? = some a)
    (simple : a.compound = false) : ¬ Under f.records i j := by
  intro h
  obtain ⟨c, x, hx, hp, -⟩ := h.exists_child
  obtain ⟨outer, ho, compound⟩ := hc c x hx i hp
  rw [ha] at ho
  cases ho
  rw [simple] at compound
  cases compound

/-- What shares text with a simple statement lies around it. -/
theorem Sound.apart_of_simple (hf : f.Sound) (ho : Preordered f.records) (hc : f.CompoundParents)
    (ha : f.records[i]? = some a) (simple : a.compound = false) (hb : f.records[j]? = some b)
    (other : j ≠ i) :
    b.span.stop ≤ a.span.start ∨ a.span.stop ≤ b.span.start ∨ Under f.records j i := by
  rcases Nat.lt_or_gt_of_ne other with hji | hij
  · rcases under_or_before hf.fitted ho hb ha hji with around | before
    · exact .inr (.inr around)
    · exact .inl before
  · rcases under_or_before hf.fitted ho ha hb hij with inside | behind
    · exact absurd inside (hc.not_under ha simple)
    · exact .inr (.inl behind)

/-- No statement has a simple one as its parent. -/
theorem CompoundParents.children_eq_empty (hc : f.CompoundParents) (hf : f.Sound) {e : Entry}
    (he : f.get? i = some e) (simple : e.compound = false) : e.children = #[] := by
  have linked := hf.linked (some i)
  simp only [childrenOf, he, Option.map_some, Option.getD_some] at linked
  have none_there : childIds f.records (some i) = [] := by
    apply List.eq_nil_iff_forall_not_mem.2
    intro j hj
    obtain ⟨x, hx, hp⟩ := mem_childIds.1 hj
    exact hc.not_under (records_of_get? he) simple (.child hx hp)
  rw [none_there] at linked
  exact Array.toList_eq_nil_iff.1 linked

/-- Each statement is compound or not by the decision of its node, and simple statements are
atoms. -/
structure Atomic (f : Forest) (r : Rules) (root : Node) : Prop where
  /-- A statement is given by a piece that the walk comes to: by a node of the tree, which decides
  whether it is compound, or else by the text of an error or by attachments, which are simple. -/
  given : ∀ i e, f.get? i = some e → ∃ outer p, r.Reaches root outer p ∧ r.Gives p e.record ∧
    (∀ start n, p = .statement start n → Node.Below n root ∧ e.compound = r.isCompound n ∧
      ∀ container body, r.role n.kind n.error container = .statement body →
        (r.parts n body).any Part.isBlock = e.compound) ∧
    (p.node? = none → e.compound = false)
  /-- Nothing hangs on a simple statement. -/
  bare : ∀ i e, f.get? i = some e → e.compound = false →
    e.children = #[] ∧ ∀ j x, f.get? j = some x → x.parent ≠ some i
  /-- What shares text with a simple statement is one of those around it. -/
  apart : ∀ i e j x, f.get? i = some e → e.compound = false → f.get? j = some x → j ≠ i →
    x.span.stop ≤ e.span.start ∨ e.span.stop ≤ x.span.start ∨
      j ∈ f.ancestors i ∧ e.span.StrictlyInside x.span

/-- Whatever the tree, the language and the scope, a node decides whether its statement is compound,
and the simple statements of a forest that is built are atoms. -/
theorem atomic_of_ofSketch {l : Language} {root : Node}
    (h : ofSketch s (l.rules.sketchRoot root) = .ok f) : f.Atomic l.rules root := by
  have hf := sound_of_ofSketch h
  have ho := preordered_of_ofSketch h
  have hc := compoundParents_of_ofSketch h
  constructor
  · intro i e he
    obtain ⟨outer, p, hp, hgives⟩ := Rules.exists_gives_of_get? h he
    refine ⟨outer, p, hp, hgives, ?_, hgives.simple⟩
    rintro start n rfl
    have decided : e.compound = l.rules.isCompound n := hgives.compound_eq
    refine ⟨hp.node_below rfl, decided, ?_⟩
    intro container body hrole
    rw [decided, Rules.any_isBlock_parts_of_role hrole]
  · intro i e he simple
    refine ⟨hc.children_eq_empty hf he simple, fun j x hx hp => ?_⟩
    exact hc.not_under (records_of_get? he) simple (.child (records_of_get? hx) hp)
  · intro i e j x he simple hx other
    have hr := records_of_get? he
    have hx' := records_of_get? hx
    rcases hf.apart_of_simple ho hc hr simple hx' other with before | behind | around
    · exact .inl before
    · exact .inr (.inl behind)
    · exact .inr (.inr ⟨hf.mem_ancestors_iff.2 around, around.strictlyInside hf.fitted hx' hr⟩)

/-! ## A stray parenthesis

In the Rust function `fn f() { a(); ) x }` the parser gives up the lone parenthesis as an error. -/

/-- A token of one byte. -/
def token (kind : String) (start : Nat) : Node :=
  .mk ⟨kind, none, ⟨start, start + 1⟩, false, false, false, false, false⟩ []

/-- A Rust identifier of one byte. -/
def identifier (field : Option String) (start : Nat) : Node :=
  .mk ⟨"identifier", field, ⟨start, start + 1⟩, true, false, false, false, false⟩ []

/-- The statement in front of the error. -/
def callStatement : Node :=
  .mk ⟨"expression_statement", none, ⟨9, 13⟩, true, false, false, false, false⟩ [
    .mk ⟨"call_expression", none, ⟨9, 12⟩, true, false, false, false, false⟩ [
      identifier (some "function") 9,
      .mk ⟨"arguments", some "arguments", ⟨10, 12⟩, true, false, false, false, false⟩ [
        token "(" 10, token ")" 11]],
    token ";" 12]

def strayError : Node :=
  .mk ⟨"ERROR", none, ⟨14, 15⟩, true, true, true, false, true⟩ [token ")" 14]

/-- The body of the function, with the expression that it returns. -/
def strayBlock : Node :=
  .mk ⟨"block", some "body", ⟨7, 19⟩, true, false, false, false, true⟩ [
    token "\x7b" 7, callStatement, strayError, identifier none 16, token "\x7d" 18]

def strayFunction : Node :=
  .mk ⟨"function_item", none, ⟨0, 19⟩, true, false, false, false, true⟩ [
    .mk ⟨"fn", none, ⟨0, 2⟩, false, false, false, false, false⟩ [],
    identifier (some "name") 3,
    .mk ⟨"parameters", some "parameters", ⟨4, 6⟩, true, false, false, false, false⟩ [
      token "(" 4, token ")" 5],
    strayBlock]

def strayRoot : Node :=
  .mk ⟨"source_file", none, ⟨0, 19⟩, true, false, false, false, true⟩ [strayFunction]

/-- The forest of that source. The error takes the expression in, as if it were its terminator. -/
def strayForest : Forest :=
  ⟨#[⟨"function_item", ⟨0, 19⟩, true, none, #[1, 2]⟩,
    ⟨"expression_statement", ⟨9, 13⟩, false, some 0, #[]⟩,
    ⟨"ERROR", ⟨14, 17⟩, false, some 0, #[]⟩], #[0]⟩

theorem partsOf_strayFunction :
    Language.rust.rules.partsOf strayFunction = [.block strayBlock] := by
  have hbody : Language.rust.rules.body? strayFunction.kind = some (.fields ["body"]) := rfl
  rw [Rules.partsOf, hbody]
  dsimp only
  rw [Rules.parts]
  rfl

theorem isCompound_strayFunction : Language.rust.rules.isCompound strayFunction = true := by
  rw [Rules.isCompound, partsOf_strayFunction]
  rfl

theorem blockPieces_strayBlock : Language.rust.rules.blockPieces strayBlock =
    [.statement 9 callStatement, .fragment ⟨14, 17⟩] :=
  rfl

theorem isCompound_callStatement : Language.rust.rules.isCompound callStatement = false := by
  have hbody : Language.rust.rules.body? callStatement.kind = some (.target none) := rfl
  rw [Rules.isCompound, Rules.partsOf, hbody]
  dsimp only
  rw [Rules.parts_target]
  rfl

theorem sketchRoot_stray : Language.rust.rules.sketchRoot strayRoot =
    [.compound "function_item" ⟨0, 19⟩
      [.simple "expression_statement" ⟨9, 13⟩, .fragment ⟨14, 17⟩]] := by
  have hroot : Language.rust.rules.rootPieces strayRoot = [.statement 0 strayFunction] := rfl
  have hinner : Language.rust.rules.inner (.statement 0 strayFunction) =
      [.statement 9 callStatement, .fragment ⟨14, 17⟩] := by
    rw [Rules.inner, if_pos isCompound_strayFunction, partsOf_strayFunction,
      List.flatMap_singleton]
    exact blockPieces_strayBlock
  rw [Rules.sketchRoot, hroot, Rules.sketchAll, List.flatMap_singleton, Rules.sketch_eq]
  simp only [isCompound_strayFunction, if_true, hinner, Rules.sketchAll, List.flatMap_cons,
    List.flatMap_nil]
  rw [Rules.sketch_eq, Rules.sketch_eq]
  simp only [isCompound_callStatement, Bool.false_eq_true, if_false]
  rfl

theorem ofSketch_stray :
    ofSketch ⟨⟨0, 19⟩, .intersecting⟩ (Language.rust.rules.sketchRoot strayRoot) =
      .ok strayForest := by
  rw [sketchRoot_stray]
  rfl

theorem atomic_stray :
    ofSketch ⟨⟨0, 19⟩, .intersecting⟩ (Language.rust.rules.sketchRoot strayRoot) =
      .ok strayForest ∧ strayForest.Atomic Language.rust.rules strayRoot :=
  ⟨ofSketch_stray, atomic_of_ofSketch ofSketch_stray⟩

end Forest

end StatementOutline
