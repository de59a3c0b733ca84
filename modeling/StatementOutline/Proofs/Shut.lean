import StatementOutline.Outline
import StatementOutline.Proofs.Alike
import StatementOutline.Proofs.Preorder
import StatementOutline.Proofs.Reach

/-!
# Shut nodes

What is inside a shut node never leaks: trees that differ only inside shut nodes have the same
outline. A shut node may stand for a statement, but never for a block or an error, and it is not
seen through.

* `partsOf_alike`, `members_alike`: the parts of a body and the members of a block;
* `sketchRoot_alike`, `build_openAlike`: the outline.
-/

namespace StatementOutline

/-! ## Bodies -/

/-- The parts are the same but for what is inside shut nodes. A single statement may be shut. -/
inductive Part.Alike (r : Rules) : Part → Part → Prop
  | block {n n' : Node} : Node.OpenAlike r n n' → Alike r (.block n) (.block n')
  | inline {n n' : Node} : Node.Alike r n n' → Alike r (.inline n) (.inline n')
  | recovered {n n' : Node} : Node.OpenAlike r n n' → Alike r (.recovered n) (.recovered n')

theorem Part.Alike.isBlock_eq {r : Rules} {p p' : Part} (h : Part.Alike r p p') :
    p'.isBlock = p.isBlock := by
  cases h <;> rfl

namespace Rules

open Node

variable {l : Language} {n n' c c' : Node} {cs cs' : List Node}

theorem partAlike_singleton {p p' : Part} (h : Part.Alike l.rules p p') :
    List.Forall₂ (Part.Alike l.rules) [p] [p'] :=
  .cons h .nil

theorem collect_alike_of_shuts (h : Alike l.rules n n') (herror : n.error = false)
    (hshut : l.rules.Shuts n.kind) :
    List.Forall₂ (Part.Alike l.rules) (l.rules.collect n) (l.rules.collect n') := by
  have hshut' : l.rules.Shuts n'.kind := h.kind_eq ▸ hshut
  rw [hshut.collect_eq herror, hshut'.collect_eq (h.error_eq.trans herror), h.kind_eq]
  split
  · exact partAlike_singleton (.inline h)
  · exact .nil

mutual
theorem collect_alike : ∀ {n n' : Node}, Alike l.rules n n' →
    List.Forall₂ (Part.Alike l.rules) (l.rules.collect n) (l.rules.collect n')
  | .mk label cs, _, h => by
    have halike := h
    cases h with
    | shut herror hshut _ => exact collect_alike_of_shuts halike herror hshut
    | opened h =>
      cases h with
      | mk hcs hpath =>
        have hopen := OpenAlike.mk hcs hpath
        unfold collect
        split
        · exact partAlike_singleton (.recovered hopen)
        split
        · exact partAlike_singleton (.block hopen)
        split
        · exact collectAll_alike hcs
        split
        · exact partAlike_singleton (.inline (.opened hopen))
        · exact .nil

theorem collectAll_alike : ∀ {cs cs' : List Node}, List.Forall₂ (Alike l.rules) cs cs' →
    List.Forall₂ (Part.Alike l.rules) (l.rules.collectAll cs) (l.rules.collectAll cs')
  | [], _, h => by
    cases h
    exact .nil
  | c :: cs, _, h => by
    cases h with
    | cons hc hcs =>
      rw [collectAll, collectAll, hc.isSolid_eq, hc.inHeader_eq]
      refine List.rel_append ?_ (collectAll_alike hcs)
      split
      · exact collect_alike hc
      · exact .nil
end

theorem collectField_alike (names : List String) (h : Alike l.rules c c') :
    List.Forall₂ (Part.Alike l.rules) (l.rules.collectField names c)
      (l.rules.collectField names c') := by
  simp only [collectField, h.isSolid_eq, h.missing_eq, h.error_eq, h.field_eq, h.inHeader_eq,
    h.kind_eq]
  split
  · exact .nil
  split
  · next herror =>
    exact partAlike_singleton (.recovered (h.openAlike fun hno => by simp [herror] at hno))
  split
  · exact collect_alike h
  split
  · exact .nil
  split
  · exact collect_alike h
  · exact .nil

/-- The parts of the body of a wrapper, given that the parts of what it wraps are alike. -/
theorem parts_target_alike {field : Option String} (h : OpenAlike l.rules n n')
    (each : ∀ c ∈ n.children, ∀ c', Alike l.rules c c' →
      List.Forall₂ (Part.Alike l.rules) (l.rules.partsOf c) (l.rules.partsOf c')) :
    List.Forall₂ (Part.Alike l.rules) (l.rules.parts n (.target field))
      (l.rules.parts n' (.target field)) := by
  have htarget := target?_alike h field
  rw [parts_target, parts_target]
  generalize hc : n.target? field = o, n'.target? field = o' at htarget ⊢
  cases htarget with
  | none => exact .nil
  | @some c c' halike =>
    simp only [Option.map_some, Option.getD_some, halike.kind_eq]
    split
    · next hblock =>
      refine partAlike_singleton (.block (halike.openAlike fun _ hshut => ?_))
      simp [hshut.isBlock_eq_false] at hblock
    · exact each c (mem_children_of_target? hc) c' halike

/-- The parts of the body of alike nodes are alike. -/
theorem partsOf_alike (h : Alike l.rules n n') :
    List.Forall₂ (Part.Alike l.rules) (l.rules.partsOf n) (l.rules.partsOf n') := by
  induction hw : sizeOf n using Nat.strongRecOn generalizing n n' with
  | ind w ih =>
    subst hw
    have hkind := h.kind_eq
    cases h with
    | @shut label damaged cs cs' _ hshut _ =>
      have hparts := Shuts.partsOf_eq_nil (n := .mk label cs) hshut
      have hparts' := Shuts.partsOf_eq_nil (n := .mk { label with damaged } cs') hshut
      rw [hparts, hparts']
      exact .nil
    | opened h =>
      rw [partsOf, partsOf, hkind]
      cases hb : l.rules.body? n.kind with
      | none => exact .nil
      | some b =>
        dsimp only
        cases b with
        | simple =>
          rw [parts, parts]
          exact .nil
        | members =>
          rw [parts, parts]
          exact partAlike_singleton (.block h)
        | fields names =>
          rw [parts, parts]
          exact List.rel_flatMap h.children fun _ _ hc => collectField_alike names hc
        | tail =>
          have htail : Option.Rel (Alike l.rules) n.lastBodyChild? n'.lastBodyChild? :=
            target?_alike h none
          rw [parts, parts]
          generalize n.lastBodyChild? = o, n'.lastBodyChild? = o' at htail ⊢
          cases htail with
          | none => exact .nil
          | some hc => exact collect_alike hc
        | target field =>
          exact parts_target_alike h fun c hc c' halike => ih _ (sizeOf_child hc) halike rfl
        | path steps =>
          have hend := follow?_alike h hb
          rw [parts, parts]
          generalize n.follow? steps = o, n'.follow? steps = o' at hend ⊢
          cases hend with
          | none => exact .nil
          | @some e e' he =>
            have hend : e'.kind = e.kind := (Alike.opened he).kind_eq
            cases hblock : l.rules.isBlock e.kind with
            | true => simpa [Option.filter, hblock, hend] using Part.Alike.block he
            | false => simp [Option.filter, hblock, hend]

theorem isCompound_alike (h : Alike l.rules n n') :
    l.rules.isCompound n' = l.rules.isCompound n := by
  have hparts := partsOf_alike h
  rw [isCompound, isCompound]
  generalize l.rules.partsOf n = ps, l.rules.partsOf n' = ps' at hparts ⊢
  induction hparts with
  | nil => rfl
  | cons hp _ ih => rw [List.any_cons, List.any_cons, ih, hp.isBlock_eq]

end Rules

/-! ## Pieces -/

/-- The pieces are the same but for what is inside shut nodes. Only a statement may be shut. -/
inductive Piece.Alike (r : Rules) : Piece → Piece → Prop
  | statement {start : Nat} {n n' : Node} : Node.Alike r n n' →
      Alike r (.statement start n) (.statement start n')
  | fragment {span : Span} : Alike r (.fragment span) (.fragment span)
  | attachments {run : Run} : Alike r (.attachments run) (.attachments run)
  | group {n n' : Node} : Node.OpenAlike r n n' → Alike r (.group n) (.group n')
  | block {n n' : Node} : Node.OpenAlike r n n' → Alike r (.block n) (.block n')

namespace Node

variable {r : Rules}

mutual
theorem shards_alike : ∀ {n n' : Node}, OpenAlike r n n' →
    List.Forall₂ (Alike r) n.shards n'.shards
  | .mk label cs, _, h => by
    cases h with
    | mk hcs _ => exact shardsAll_alike hcs

theorem shardsAll_alike : ∀ {cs cs' : List Node}, List.Forall₂ (Alike r) cs cs' →
    List.Forall₂ (Alike r) (shardsAll cs) (shardsAll cs')
  | [], _, h => by
    cases h
    exact .nil
  | c :: cs, _, h => by
    cases h with
    | cons hc hcs =>
      rw [shardsAll, shardsAll, hc.isVoid_eq, hc.error_eq]
      refine List.rel_append ?_ (shardsAll_alike hcs)
      split
      · exact .nil
      split
      · next herror => exact shards_alike (hc.openAlike fun hno => by simp [herror] at hno)
      · exact .cons hc .nil
end

end Node

namespace Rules

open Node
open Piece (ofFragment ofRun)

variable {l : Language} {n n' : Node} {cs cs' ss ss' : List Node} {frag : Option Span}
  {run : Option Run} {container : Bool} {p p' : Piece}

theorem ofFragment_alike :
    List.Forall₂ (Piece.Alike l.rules) (ofFragment frag) (ofFragment frag) := by
  cases frag with
  | none => exact .nil
  | some s => exact .cons .fragment .nil

theorem ofRun_alike : List.Forall₂ (Piece.Alike l.rules) (ofRun run) (ofRun run) := by
  cases run with
  | none => exact .nil
  | some run => exact .cons .attachments .nil

theorem joinFragment_alike (h : Alike l.rules n n') :
    joinFragment frag n' = joinFragment frag n := by
  simp only [joinFragment, h.start_eq, h.stop_eq]

/-- The shards of an error are cut into alike pieces, and the same fragment stays open. -/
theorem cut_alike (frag : Option Span) (h : List.Forall₂ (Alike l.rules) ss ss') :
    List.Forall₂ (Piece.Alike l.rules) (l.rules.cut frag ss).1 (l.rules.cut frag ss').1 ∧
      (l.rules.cut frag ss').2 = (l.rules.cut frag ss).2 := by
  induction h generalizing frag with
  | nil => exact ⟨.nil, rfl⟩
  | @cons s s' ss ss' hs _ ih =>
    rw [cut, cut, hs.named_eq, hs.kind_eq, joinFragment_alike hs]
    split
    · have hstatement : Piece.Alike l.rules (.statement s.start s) (.statement s'.start s') := by
        rw [hs.start_eq]
        exact .statement hs
      exact ⟨List.rel_append ofFragment_alike (.cons hstatement (ih none).1), (ih none).2⟩
    split
    · next hblock =>
      have hopen : OpenAlike l.rules s s' := hs.openAlike fun _ hshut => by
        simp [hshut.isBlock_eq_false] at hblock
      exact ⟨List.rel_append ofFragment_alike (.cons (.block hopen) (ih none).1), (ih none).2⟩
    · exact ih _

/-- The members of alike lists are alike pieces. Attachments and skipped nodes count by their spans,
and only nodes that are not shut are seen through or cut. -/
theorem members_alike (h : List.Forall₂ (Alike l.rules) cs cs') :
    List.Forall₂ (Piece.Alike l.rules) (l.rules.members container run frag cs)
      (l.rules.members container run frag cs') := by
  induction h generalizing run frag with
  | nil => exact List.rel_append ofFragment_alike ofRun_alike
  | @cons c c' cs cs' hc _ ih =>
    have hjoin : joinRun run c' = joinRun run c := by
      simp only [joinRun, hc.kind_eq, hc.span_eq, hc.stop_eq]
    have hafter : startAfter run c' = startAfter run c := by
      simp only [startAfter, hc.start_eq]
    rw [members, members, hc.isMember_eq]
    split
    · dsimp only
      rw [hc.kind_eq, hc.error_eq, hc.isTerminator_eq, joinFragment_alike hc, hjoin, hafter]
      split
      · exact .cons .fragment ih
      · refine List.rel_append ofFragment_alike ?_
        cases hrole : l.rules.role c.kind c.error container with
        | statement body => exact .cons (.statement hc) ih
        | attachment => exact ih
        | transparent =>
          have hopen : OpenAlike l.rules c c' := hc.openAlike fun herror hshut =>
            hshut.role_ne_transparent container (herror ▸ hrole)
          exact List.rel_append ofRun_alike (.cons (.group hopen) ih)
        | recovered =>
          have herror : c.error = true := role_eq_recovered_iff.1 hrole
          have hopen : OpenAlike l.rules c c' := hc.openAlike fun hno _ => by simp [herror] at hno
          obtain ⟨hps, hlast⟩ := cut_alike none (shards_alike hopen)
          dsimp only
          rw [hlast]
          exact List.rel_append (List.rel_append ofRun_alike hps) ih
        | skipped => exact ih
    · exact ih

theorem blockPieces_alike (h : OpenAlike l.rules n n') :
    List.Forall₂ (Piece.Alike l.rules) (l.rules.blockPieces n) (l.rules.blockPieces n') := by
  rw [blockPieces, blockPieces, (Alike.opened h).kind_eq]
  exact members_alike h.children

theorem regionPieces_alike (h : OpenAlike l.rules n n') :
    List.Forall₂ (Piece.Alike l.rules) (l.rules.regionPieces n) (l.rules.regionPieces n') := by
  obtain ⟨hps, hlast⟩ := cut_alike none (shards_alike h)
  simp only [regionPieces, hlast]
  exact List.rel_append hps ofFragment_alike

theorem partPieces_alike {part part' : Part} (h : Part.Alike l.rules part part') :
    List.Forall₂ (Piece.Alike l.rules) (l.rules.partPieces part) (l.rules.partPieces part') := by
  cases h with
  | block h => exact blockPieces_alike h
  | @inline n n' h =>
    rw [partPieces, partPieces, h.start_eq]
    exact .cons (.statement h) .nil
  | recovered h => exact regionPieces_alike h

/-- The pieces nested in alike pieces are alike. -/
theorem inner_alike (h : Piece.Alike l.rules p p') :
    List.Forall₂ (Piece.Alike l.rules) (l.rules.inner p) (l.rules.inner p') := by
  cases h with
  | statement h =>
    rw [inner, inner, isCompound_alike h]
    split
    · exact List.rel_flatMap (partsOf_alike h) fun _ _ hpart => partPieces_alike hpart
    · exact .nil
  | fragment | attachments => exact .nil
  | group h | block h => exact blockPieces_alike h

theorem rootPieces_alike (h : OpenAlike l.rules n n') :
    List.Forall₂ (Piece.Alike l.rules) (l.rules.rootPieces n) (l.rules.rootPieces n') := by
  rw [rootPieces, rootPieces, (Alike.opened h).error_eq]
  split
  · exact regionPieces_alike h
  · exact blockPieces_alike h

/-! ## Outlines -/

theorem sketchAll_alike {ps ps' : List Piece} (h : List.Forall₂ (Piece.Alike l.rules) ps ps')
    (each : ∀ p ∈ ps, ∀ p', Piece.Alike l.rules p p' → l.rules.sketch p' = l.rules.sketch p) :
    l.rules.sketchAll ps' = l.rules.sketchAll ps := by
  induction h with
  | nil => rfl
  | @cons p p' ps ps' hp _ ih =>
    have rest := ih fun q hq => each q (List.mem_cons_of_mem _ hq)
    rw [sketchAll, List.flatMap_cons, each p (List.mem_cons_self ..) p' hp]
    exact congrArg (l.rules.sketch p ++ ·) rest

/-- Alike pieces have the same sketch. -/
theorem sketch_alike (h : Piece.Alike l.rules p p') : l.rules.sketch p' = l.rules.sketch p := by
  induction p using piece_induction (r := l.rules) generalizing p' with
  | step p ih =>
    have nested := sketchAll_alike (inner_alike h) fun q hq _ => ih q hq
    rw [sketch_eq, sketch_eq, nested]
    cases h with
    | statement h => simp only [isCompound_alike h, h.kind_eq, h.stop_eq]
    | group h => simp only [(Alike.opened h).span_eq]
    | fragment | attachments | block => rfl

theorem sketchRoot_alike (h : OpenAlike l.rules n n') :
    l.rules.sketchRoot n' = l.rules.sketchRoot n :=
  sketchAll_alike (rootPieces_alike h) fun _ _ _ => sketch_alike

end Rules

namespace Outline

variable {o : Outline} {root root' : Node}

/-- Trees that differ only inside shut nodes have the same statements, or fail to be built in the
same way. -/
theorem build_openAlike (h : Node.OpenAlike o.language.rules root root') :
    (o.build root').map forest = (o.build root).map forest := by
  unfold build
  rw [Rules.sketchRoot_alike h]
  cases o.contents with
  | some contents => rfl
  | none =>
    cases Forest.ofSketch o.scope (o.language.rules.sketchRoot root) <;> rfl

/-- A token of C. -/
def cToken (kind : String) (start stop : Nat) : Node :=
  .mk ⟨kind, none, ⟨start, stop⟩, false, false, false, false, false⟩ []

/-- An expression in parentheses and behind it a block. -/
def parenthesized (inside : Node) : Node :=
  .mk ⟨"translation_unit", none, ⟨0, 7⟩, true, false, false, false, false⟩ [
    .mk ⟨"expression_statement", none, ⟨0, 5⟩, true, false, false, false, false⟩ [
      .mk ⟨"parenthesized_expression", none, ⟨0, 4⟩, true, false, false, false, false⟩ [
        cToken "(" 0 1, inside, cToken ")" 3 4],
      cToken ";" 4 5],
    Forest.braces 5 7 []]

/-- A name. -/
def nameNode : Node :=
  .mk ⟨"identifier", none, ⟨1, 3⟩, true, false, false, false, false⟩ []

/-- The outline of a source with a block as its expression, unbuilt. -/
def blockExpression : Outline :=
  let source := String.ofList ['(', '\x7b', '\x7d', ')', ';', '\x7b', '\x7d']
  ⟨.c, source, ⟨0, 7⟩, ⟨0, 7⟩, ⟨.utf8, .intersecting, 100⟩, Offsets.ofSource source .utf8, none⟩

/-- A block inside a simple statement counts for no more than a name. -/
theorem build_openAlike_blockExpression :
    Node.OpenAlike Language.c.rules (parenthesized nameNode)
      (parenthesized (Forest.braces 1 3 [])) ∧
    (blockExpression.build (parenthesized (Forest.braces 1 3 []))).map forest =
      (blockExpression.build (parenthesized nameNode)).map forest := by
  have shut : Language.c.rules.Shuts "expression_statement" := by decide
  have no_path : ∀ steps, Language.c.rules.body? "translation_unit" ≠ some (.path steps) := by
    intro steps h
    cases h
  have halike : Node.OpenAlike Language.c.rules (parenthesized nameNode)
      (parenthesized (Forest.braces 1 3 [])) :=
    .of_children (.cons (.shut rfl shut fun wide => by cases wide)
      (.cons (.opened (.refl _)) .nil)) no_path
  exact ⟨halike, build_openAlike (o := blockExpression) halike⟩

end Outline

end StatementOutline
