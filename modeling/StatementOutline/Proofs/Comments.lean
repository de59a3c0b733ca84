import Mathlib.Data.List.Basic
import Mathlib.Data.List.Find
import StatementOutline.Outline
import StatementOutline.Proofs.Preorder
import StatementOutline.Proofs.Reach

/-!
# Comments

A tree has the outline that it has without its comments. What is read off a node is read off its
other children, as long as comments stand aside: no field leads to them, no path names their kind,
and they do not stand where a lone terminator could.

* `prune`: a tree without its comments;
* `parts_prune`, `members_pruneAll`: the parts of a body and the members of a block;
* `sketchRoot_prune`, `build_prune`: the outline.
-/

namespace StatementOutline

namespace Node

mutual
/-- The tree without the comments below its root and all that is inside them. -/
def prune : Node → Node
  | .mk l cs => .mk l (pruneAll cs)

/-- The same of several trees; those that are comments are left out. -/
def pruneAll : List Node → List Node
  | [] => []
  | c :: cs => if c.isComment then pruneAll cs else c.prune :: pruneAll cs
end

mutual
/-- The nodes of a tree that are not comments or inside them, in pre-order. The root is one of
them. -/
def remaining : Node → List Node
  | .mk l cs => .mk l cs :: remainingAll cs

/-- The same of several trees; those that are comments are left out. -/
def remainingAll : List Node → List Node
  | [] => []
  | c :: cs => if c.isComment then remainingAll cs else c.remaining ++ remainingAll cs
end

end Node

/-- The steps of all paths by which bodies are found. -/
def Rules.pathSteps (r : Rules) : List String :=
  r.statements.flatMap fun (kind, _) =>
    match r.body? kind with
    | some (.path steps) => steps
    | _ => []

namespace Node

/-- Nothing looks for a comment as a child of the node: no field leads to it, no path names its
kind, and the node is no lone terminator. -/
structure Aside (r : Rules) (n c : Node) : Prop where
  field : c.field = none
  kind : c.kind ∉ r.pathSteps
  wide : n.stop - n.start ≠ 1

instance (r : Rules) (n c : Node) : Decidable (Aside r n c) :=
  decidable_of_iff (c.field = none ∧ c.kind ∉ r.pathSteps ∧ n.stop - n.start ≠ 1)
    ⟨fun ⟨hfield, hkind, hwide⟩ => ⟨hfield, hkind, hwide⟩, fun h => ⟨h.field, h.kind, h.wide⟩⟩

/-- All comments of the tree stand aside. -/
def CommentsAside (r : Rules) (root : Node) : Prop :=
  root.All fun n => ∀ c ∈ n.children, c.isComment = true → Aside r n c

instance (r : Rules) (root : Node) : Decidable (root.CommentsAside r) :=
  inferInstanceAs (Decidable (root.All fun n => ∀ c ∈ n.children, c.isComment = true → Aside r n c))

variable {r : Rules} {n m c : Node} {cs : List Node}

theorem CommentsAside.of_below (h : n.CommentsAside r) (hm : Below m n) : m.CommentsAside r :=
  All.of_below h hm

theorem CommentsAside.of_mem (h : n.CommentsAside r) (hc : c ∈ n.children) : c.CommentsAside r :=
  All.of_mem h hc

/-! ## What stays -/

@[simp]
theorem label_prune (n : Node) : n.prune.label = n.label := by
  cases n
  rfl

@[simp]
theorem kind_prune (n : Node) : n.prune.kind = n.kind := congrArg Label.kind (label_prune n)

@[simp]
theorem field_prune (n : Node) : n.prune.field = n.field := congrArg Label.field (label_prune n)

@[simp]
theorem span_prune (n : Node) : n.prune.span = n.span := congrArg Label.span (label_prune n)

@[simp]
theorem start_prune (n : Node) : n.prune.start = n.start := congrArg Span.start (span_prune n)

@[simp]
theorem stop_prune (n : Node) : n.prune.stop = n.stop := congrArg Span.stop (span_prune n)

@[simp]
theorem named_prune (n : Node) : n.prune.named = n.named := congrArg Label.named (label_prune n)

@[simp]
theorem error_prune (n : Node) : n.prune.error = n.error := congrArg Label.error (label_prune n)

@[simp]
theorem missing_prune (n : Node) : n.prune.missing = n.missing :=
  congrArg Label.missing (label_prune n)

@[simp]
theorem isEmpty_prune (n : Node) : n.prune.isEmpty = n.isEmpty := by
  cases n
  rfl

@[simp]
theorem isComment_prune (n : Node) : n.prune.isComment = n.isComment := by
  cases n
  rfl

@[simp]
theorem inHeader_prune (n : Node) : n.prune.inHeader = n.inHeader := by
  simp only [inHeader, field_prune]

@[simp]
theorem isSolid_prune (n : Node) : n.prune.isSolid = n.isSolid := by
  simp only [isSolid, named_prune, isComment_prune]

@[simp]
theorem isMember_prune (n : Node) : n.prune.isMember = n.isMember := by
  simp only [isMember, isSolid_prune, missing_prune, isEmpty_prune, inHeader_prune]

@[simp]
theorem isVoid_prune (n : Node) : n.prune.isVoid = n.isVoid := by
  simp only [isVoid, missing_prune, isEmpty_prune, isComment_prune]

theorem children_prune (n : Node) : n.prune.children = pruneAll n.children := by
  cases n
  rfl

theorem pruneAll_eq (cs : List Node) :
    pruneAll cs = (cs.filter fun c => !c.isComment).map prune := by
  induction cs with
  | nil => rfl
  | cons c cs ih =>
    rw [pruneAll, ih]
    cases h : c.isComment <;> simp [h]

mutual
theorem preorder_prune : ∀ n : Node, n.prune.preorder = n.remaining.map prune
  | .mk l cs => by
    rw [prune, preorder, preorderAll_pruneAll cs, remaining, List.map_cons, prune]

theorem preorderAll_pruneAll : ∀ cs : List Node,
    preorderAll (pruneAll cs) = (remainingAll cs).map prune
  | [] => rfl
  | c :: cs => by
    rw [pruneAll, remainingAll]
    split
    · exact preorderAll_pruneAll cs
    · rw [preorderAll, preorder_prune c, preorderAll_pruneAll cs, List.map_append]
end

mutual
theorem remaining_sublist : ∀ n : Node, n.remaining.Sublist n.preorder
  | .mk l cs => by
    rw [remaining, preorder]
    exact (remainingAll_sublist cs).cons_cons _

theorem remainingAll_sublist : ∀ cs : List Node, (remainingAll cs).Sublist (preorderAll cs)
  | [] => .slnil
  | c :: cs => by
    rw [remainingAll, preorderAll]
    split
    · exact (remainingAll_sublist cs).trans (List.sublist_append_right _ _)
    · exact (remaining_sublist c).append (remainingAll_sublist cs)
end

theorem CommentsAside.of_mem_remaining (h : n.CommentsAside r) (hm : m ∈ n.remaining) :
    m.CommentsAside r := by
  obtain rfl | hb := mem_preorder_iff.1 ((remaining_sublist n).subset hm)
  · exact h
  · exact h.of_below hb

/-! ## Finding nodes -/

/-- A search that finds no comment finds the same child when the comments are gone. -/
theorem find?_pruneAll {q : Node → Bool} (hq : ∀ c, q c.prune = q c)
    (hcomment : ∀ c ∈ cs, c.isComment = true → q c = false) :
    (pruneAll cs).find? q = (cs.find? q).map prune := by
  rw [pruneAll_eq, List.find?_map, List.find?_filter]
  congr 1
  refine List.find?_congr fun c hc => ?_
  cases h : c.isComment with
  | true => simp [hcomment c hc h]
  | false => simp [hq]

theorem childInField?_prune (h : n.CommentsAside r) (field : String) :
    n.prune.childInField? field = (n.childInField? field).map prune := by
  rw [childInField?, children_prune]
  refine find?_pruneAll (by simp) fun c hc hcomment => ?_
  simp [(h.self c hc hcomment).field]

theorem childOfKind?_prune (h : n.CommentsAside r) {kind : String} (hkind : kind ∈ r.pathSteps) :
    n.prune.childOfKind? kind = (n.childOfKind? kind).map prune := by
  rw [childOfKind?, children_prune]
  refine find?_pruneAll (by simp) fun c hc hcomment => ?_
  have other : c.kind ≠ kind := fun heq => (h.self c hc hcomment).kind (heq ▸ hkind)
  simp [other]

theorem lastBodyChild?_prune (n : Node) :
    n.prune.lastBodyChild? = n.lastBodyChild?.map prune := by
  have turned : (pruneAll n.children).reverse = pruneAll n.children.reverse := by
    simp [pruneAll_eq, List.filter_reverse]
  rw [lastBodyChild?, children_prune, turned]
  exact find?_pruneAll (by simp) fun c _ hcomment => by simp [isSolid, hcomment]

theorem target?_prune (h : n.CommentsAside r) (field : Option String) :
    n.prune.target? field = (n.target? field).map prune := by
  cases field with
  | none => exact lastBodyChild?_prune n
  | some field => exact childInField?_prune h field

theorem step?_prune (h : n.CommentsAside r) {name : String} (hname : name ∈ r.pathSteps) :
    n.prune.step? name = (n.step? name).map prune := by
  rw [step?, step?, childInField?_prune h, childOfKind?_prune h hname]
  cases n.childInField? name <;> rfl

theorem follow?_prune {names : List String} (h : n.CommentsAside r)
    (hnames : ∀ name ∈ names, name ∈ r.pathSteps) :
    n.prune.follow? names = (n.follow? names).map prune := by
  induction names generalizing n with
  | nil => rfl
  | cons name names ih =>
    obtain ⟨hname, hnames⟩ := List.forall_mem_cons.1 hnames
    rw [follow?, follow?, step?_prune h hname]
    cases hc : n.step? name with
    | none => rfl
    | some c => exact ih (h.of_mem (mem_children_of_step? hc)) hnames

/-- A node of one byte has no comments, so its named children stay. -/
theorem isTerminator_prune (h : n.CommentsAside r) : n.prune.isTerminator = n.isTerminator := by
  by_cases wide : n.stop - n.start = 1
  · have same : n.children.filter (fun c => !c.isComment) = n.children := by
      refine List.filter_eq_self.2 fun c hc => ?_
      cases hcomment : c.isComment with
      | true => exact absurd wide (h.self c hc hcomment).wide
      | false => rfl
    have count : n.prune.namedCount = n.namedCount := by
      rw [namedCount, children_prune, pruneAll_eq, same, List.countP_map, namedCount]
      exact List.countP_congr fun c _ => by simp
    simp [isTerminator, count]
  · have long : (n.stop - n.start == 1) = false := beq_eq_false_iff_ne.2 wide
    rw [isTerminator, isTerminator, start_prune, stop_prune, long, Bool.and_false, Bool.and_false]

end Node

/-! ## Bodies -/

/-- A part of a body without its comments. -/
def Part.prune : Part → Part
  | block n => block n.prune
  | inline n => inline n.prune
  | recovered n => recovered n.prune

@[simp]
theorem Part.isBlock_prune (p : Part) : p.prune.isBlock = p.isBlock := by
  cases p <;> rfl

namespace Rules

open Node

variable {r : Rules} {n c : Node} {cs : List Node} {names : List String} {b : Body} {kind : String}

theorem mem_pathSteps {steps : List String} {name : String} (h : r.body? kind = some (.path steps))
    (hname : name ∈ steps) : name ∈ r.pathSteps := by
  obtain ⟨front, back, hsplit, -⟩ := List.lookup_eq_some_iff.1 h
  refine List.mem_flatMap.2 ⟨(kind, .path steps), by simp [hsplit], ?_⟩
  simpa only [h] using hname

mutual
theorem collect_prune : ∀ n : Node, r.collect n.prune = (r.collect n).map Part.prune
  | .mk l cs => by
    rw [Node.prune, collect, collect, collectAll_pruneAll cs]
    split
    · rfl
    split
    · rfl
    split
    · rfl
    split <;> rfl

theorem collectAll_pruneAll : ∀ cs : List Node,
    r.collectAll (pruneAll cs) = (r.collectAll cs).map Part.prune
  | [] => rfl
  | c :: cs => by
    rw [pruneAll, collectAll, List.map_append, ← collectAll_pruneAll cs]
    by_cases h : c.isComment = true
    · simp [h, isSolid]
    · rw [if_neg h, collectAll, isSolid_prune, inHeader_prune, collect_prune c]
      split <;> rfl
end

theorem collectField_prune (names : List String) (c : Node) :
    r.collectField names c.prune = (r.collectField names c).map Part.prune := by
  simp only [collectField, isSolid_prune, missing_prune, error_prune, field_prune, inHeader_prune,
    kind_prune, collect_prune]
  split
  · rfl
  split
  · rfl
  split
  · rfl
  split
  · rfl
  split <;> rfl

theorem collectFields_pruneAll (names : List String) (cs : List Node) :
    (pruneAll cs).flatMap (r.collectField names) =
      (cs.flatMap (r.collectField names)).map Part.prune := by
  induction cs with
  | nil => rfl
  | cons c cs ih =>
    rw [pruneAll, List.flatMap_cons, List.map_append, ← ih]
    by_cases h : c.isComment = true
    · simp [h, collectField, isSolid]
    · rw [if_neg h, List.flatMap_cons, collectField_prune]

/-- The parts of a body are the same parts without comments. -/
theorem parts_prune (h : n.CommentsAside r) (hb : r.body? kind = some b) :
    r.parts n.prune b = (r.parts n b).map Part.prune := by
  fun_induction parts r n b generalizing kind with
  | case1 n => rw [parts]; rfl
  | case2 n => rw [parts]; rfl
  | case3 n names =>
    rw [parts, children_prune, collectFields_pruneAll]
  | case4 n =>
    rw [parts, lastBodyChild?_prune]
    cases n.lastBodyChild? with
    | none => rfl
    | some c => exact collect_prune c
  | case5 n steps =>
    rw [parts, follow?_prune h fun name hname => mem_pathSteps hb hname]
    cases n.follow? steps with
    | none => rfl
    | some e => cases he : r.isBlock e.kind <;> simp [Option.filter, he, Part.prune]
  | case6 n field hc =>
    rw [parts_target, target?_prune h, hc]
    rfl
  | case7 n field c hc _ hblock =>
    rw [parts_target, target?_prune h, hc]
    simp [hblock, Part.prune]
  | case8 n field c hc _ hblock hbody =>
    rw [parts_target, target?_prune h, hc]
    simp [hblock, partsOf, hbody]
  | case9 n field c hc _ hblock body hbody ih =>
    rw [parts_target, target?_prune h, hc]
    simp [hblock, partsOf, hbody, ih (h.of_mem (mem_children_of_target? hc)) hbody]

theorem partsOf_prune (h : n.CommentsAside r) :
    r.partsOf n.prune = (r.partsOf n).map Part.prune := by
  rw [partsOf, partsOf, kind_prune]
  cases hb : r.body? n.kind with
  | none => rfl
  | some body => exact parts_prune h hb

theorem isCompound_prune (h : n.CommentsAside r) : r.isCompound n.prune = r.isCompound n := by
  rw [isCompound, isCompound, partsOf_prune h, List.any_map]
  congr 1
  funext p
  exact p.isBlock_prune

end Rules

/-! ## Pieces -/

/-- All comments in what the piece stands for stand aside. -/
def Piece.CommentsAside (r : Rules) (p : Piece) : Prop :=
  p.All fun n => ∀ c ∈ n.children, c.isComment = true → Node.Aside r n c

/-- A piece without its comments. -/
def Piece.prune : Piece → Piece
  | statement start n => statement start n.prune
  | fragment s => fragment s
  | attachments run => attachments run
  | group n => group n.prune
  | block n => block n.prune

namespace Piece

variable {p : Piece} {frag : Option Span} {run : Option Run} {n : Node}

@[simp]
theorem map_prune_ofFragment : (ofFragment frag).map prune = ofFragment frag := by
  cases frag <;> rfl

@[simp]
theorem map_prune_ofRun : (ofRun run).map prune = ofRun run := by
  cases run <;> rfl

@[simp]
theorem joinFragment_prune : joinFragment frag n.prune = joinFragment frag n := by
  simp only [joinFragment, Node.start_prune, Node.stop_prune]

@[simp]
theorem joinRun_prune : joinRun run n.prune = joinRun run n := by
  simp only [joinRun, Node.kind_prune, Node.span_prune, Node.stop_prune]

@[simp]
theorem startAfter_prune : startAfter run n.prune = startAfter run n := by
  simp only [startAfter, Node.start_prune]

end Piece

namespace Node

mutual
theorem shards_prune : ∀ n : Node, n.prune.shards = n.shards.map prune
  | .mk _ cs => by
    rw [prune, shards, shards, shardsAll_pruneAll cs]

theorem shardsAll_pruneAll : ∀ cs : List Node,
    shardsAll (pruneAll cs) = (shardsAll cs).map prune
  | [] => rfl
  | c :: cs => by
    rw [pruneAll, shardsAll, List.map_append, ← shardsAll_pruneAll cs]
    by_cases h : c.isComment = true
    · simp [h, isVoid]
    · rw [if_neg h, shardsAll, isVoid_prune, error_prune, shards_prune c]
      split
      · rfl
      split <;> rfl
end

end Node

namespace Rules

open Node Piece

variable {r : Rules} {n c : Node} {cs ss : List Node} {frag : Option Span} {run : Option Run}
  {container : Bool} {p : Piece}

theorem cut_prune : r.cut frag (ss.map Node.prune) =
    ((r.cut frag ss).1.map Piece.prune, (r.cut frag ss).2) := by
  fun_induction cut r frag ss with
  | case1 frag => rfl
  | case2 frag s rest hstatement ps last hcut ih =>
    rw [hcut] at ih
    rw [List.map_cons, cut]
    simp [hstatement, ih, Piece.prune]
  | case3 frag s rest hstatement hblock ps last hcut ih =>
    rw [hcut] at ih
    rw [List.map_cons, cut]
    simp [hstatement, hblock, ih, Piece.prune]
  | case4 frag s rest hstatement hblock ih =>
    rw [List.map_cons, cut]
    simp [hstatement, hblock, ih]

/-- The members of a block are the same members without comments. A comment changes neither the
attachments nor the fragment that are open. -/
theorem members_pruneAll (hcs : ∀ c ∈ cs, c.CommentsAside r) :
    r.members container run frag (pruneAll cs) =
      (r.members container run frag cs).map Piece.prune := by
  induction cs generalizing run frag with
  | nil => simp [pruneAll, members]
  | cons c cs ih =>
    obtain ⟨hc, hcs⟩ := List.forall_mem_cons.1 hcs
    have later : ∀ run frag, r.members container run frag (pruneAll cs) =
        (r.members container run frag cs).map Piece.prune := fun run frag => ih hcs
    rw [pruneAll]
    by_cases h : c.isComment = true
    · have hidden : ¬ c.isMember = true := by simp [isMember, isSolid, h]
      rw [if_pos h, members, if_neg hidden, later]
    · rw [if_neg h, members, members, isMember_prune]
      split
      · dsimp only
        rw [kind_prune, error_prune, isTerminator_prune hc, joinFragment_prune]
        split
        · rw [later]
          rfl
        · rw [List.map_append, map_prune_ofFragment]
          congr 1
          cases r.role c.kind c.error container with
          | statement body => simp [later, Piece.prune]
          | attachment => simp [later]
          | transparent => simp [later, Piece.prune]
          | recovered => simp [later, shards_prune, cut_prune]
          | skipped => simp [later]
      · exact later run frag

theorem blockPieces_prune (h : n.CommentsAside r) :
    r.blockPieces n.prune = (r.blockPieces n).map Piece.prune := by
  rw [blockPieces, kind_prune, children_prune]
  exact members_pruneAll fun c hc => h.of_mem hc

theorem regionPieces_prune (n : Node) :
    r.regionPieces n.prune = (r.regionPieces n).map Piece.prune := by
  simp [regionPieces, shards_prune, cut_prune]

theorem partPieces_prune {part : Part} (h : part.node.CommentsAside r) :
    r.partPieces part.prune = (r.partPieces part).map Piece.prune := by
  cases part with
  | block b => exact blockPieces_prune h
  | inline s => simp [partPieces, Part.prune, Piece.prune]
  | recovered e => exact regionPieces_prune e

/-- The pieces nested in a piece are the same pieces without comments. -/
theorem inner_prune (h : p.CommentsAside r) :
    r.inner p.prune = (r.inner p).map Piece.prune := by
  cases p with
  | statement start n =>
    have hn := h n rfl
    simp only [Piece.prune, inner, isCompound_prune hn, partsOf_prune hn]
    split
    · rw [List.flatMap_map, List.map_flatMap]
      refine List.flatMap_congr fun part hpart => partPieces_prune ?_
      obtain rfl | hb := below_of_mem_partsOf hpart
      · exact hn
      · exact hn.of_below hb
    · rfl
  | group n | block n => exact blockPieces_prune (h n rfl)
  | fragment | attachments => rfl

theorem rootPieces_prune (h : n.CommentsAside r) :
    r.rootPieces n.prune = (r.rootPieces n).map Piece.prune := by
  rw [rootPieces, rootPieces, error_prune]
  split
  · exact regionPieces_prune n
  · exact blockPieces_prune h

/-! ## Outlines -/

/-- A piece is sketched as if it had no comments. -/
theorem sketch_prune (h : p.CommentsAside r) :
    r.sketch p.prune = r.sketch p := by
  induction p using piece_induction (r := r) with
  | step p ih =>
    have nested : r.sketchAll (r.inner p.prune) = r.sketchAll (r.inner p) := by
      rw [inner_prune h, sketchAll, List.flatMap_map]
      exact List.flatMap_congr fun q hq => ih q hq (all_of_mem_inner h hq)
    rw [sketch_eq, sketch_eq, nested]
    cases p with
    | statement start n =>
      simp only [Piece.prune, isCompound_prune (h n rfl), kind_prune, stop_prune]
    | group n => simp only [Piece.prune, span_prune]
    | fragment | attachments | block => rfl

theorem sketchRoot_prune (h : n.CommentsAside r) : r.sketchRoot n.prune = r.sketchRoot n := by
  rw [sketchRoot, sketchRoot, rootPieces_prune h, sketchAll, List.flatMap_map]
  exact List.flatMap_congr fun p hp => sketch_prune (all_of_mem_rootPieces h hp)

end Rules

namespace Outline

variable {o : Outline} {root : Node}

/-- An outline holds the same statements, or fails to be built in the same way, when the comments of
the tree are gone, and the nodes that stay are compound or not as before. -/
theorem build_prune (h : root.CommentsAside o.language.rules) :
    (o.build root.prune).map forest = (o.build root).map forest ∧
      root.prune.preorder = root.remaining.map Node.prune ∧
      ∀ n ∈ root.remaining,
        o.language.rules.isCompound n.prune = o.language.rules.isCompound n := by
  refine ⟨?_, Node.preorder_prune root, fun n hn => Rules.isCompound_prune (h.of_mem_remaining hn)⟩
  unfold build
  rw [Rules.sketchRoot_prune h]
  cases o.contents with
  | some contents => rfl
  | none =>
    cases Forest.ofSketch o.scope (o.language.rules.sketchRoot root) <;> rfl

/-- A comment of C. -/
def remark (start stop : Nat) : Node :=
  .mk ⟨"comment", none, ⟨start, stop⟩, true, true, false, false, false⟩ []

/-- A comment in front of a block, and in that block another one in front of an inner block. -/
def remarkedRoot : Node :=
  .mk ⟨"translation_unit", none, ⟨0, 13⟩, true, false, false, false, false⟩
    [remark 0 3, Forest.braces 4 13 [remark 5 10, Forest.braces 10 12 []]]

/-- The outline of that source, unbuilt. -/
def remarked : Outline :=
  let source := String.ofList
    ['/', '/', 'a', '\n', '\x7b', '/', '*', 'b', '*', '/', '\x7b', '\x7d', '\x7d']
  ⟨.c, source, ⟨0, 13⟩, ⟨0, 13⟩, ⟨.utf8, .intersecting, 100⟩, Offsets.ofSource source .utf8, none⟩

theorem build_prune_remarked : remarkedRoot.CommentsAside Language.c.rules ∧
    (remarked.build remarkedRoot.prune).map forest = (remarked.build remarkedRoot).map forest ∧
    remarkedRoot.prune.preorder = remarkedRoot.remaining.map Node.prune ∧
    ∀ n ∈ remarkedRoot.remaining,
      Language.c.rules.isCompound n.prune = Language.c.rules.isCompound n := by
  have aside : remarkedRoot.CommentsAside Language.c.rules := by decide
  have pruned := build_prune (o := remarked) aside
  exact ⟨aside, pruned⟩

end Outline

end StatementOutline
