import StatementOutline.Outline.Dump
import StatementOutline.Proofs.Attachments
import StatementOutline.Proofs.Navigation

/-!
# Reading a dump

A dump shows of a statement its depth, its kind, its range and its shape, and the beginning of its
text. No parent is shown, and the text may be anything. All the same a dump tells the statements
apart and how they are nested: quoted text stays on its line, and in pre-order the parent of a
statement is the last one before it that is less deep.

* `Text.eq_of_cut`: texts cut behind a class of characters are cut alike;
* `Outline.describe_inj`: what the line of a statement tells;
* `Forest.Sound.parent_eq_some_iff_depth`: how depths tell parents;
* `Outline.dump_determines`: outlines with the same dump.
-/

namespace StatementOutline

namespace Text

variable {p : Char → Bool} {c : Char} {a a' b b' : List Char} {ls ls' : List (List Char)} {m n : Nat}

/-! ## Cutting a text -/

/-- The text does not go on with a character of the class. -/
def Leaves (p : Char → Bool) (cs : List Char) : Prop :=
  ∀ c, cs.head? = some c → p c = false

theorem takeWhile_append_of_leaves (ha : ∀ c ∈ a, p c = true) (hb : Leaves p b) :
    (a ++ b).takeWhile p = a := by
  rw [List.takeWhile_append_of_pos ha]
  cases b with
  | nil => rw [List.takeWhile_nil, List.append_nil]
  | cons c b =>
    have hc : ¬ p c = true := by
      rw [hb c rfl]
      exact Bool.false_ne_true
    rw [List.takeWhile_cons_of_neg hc, List.append_nil]

/-- A text is cut in one way only where the characters of a class come to their end. -/
theorem eq_of_cut (ha : ∀ c ∈ a, p c = true) (hb : Leaves p b) (ha' : ∀ c ∈ a', p c = true)
    (hb' : Leaves p b') (h : a ++ b = a' ++ b') : a = a' ∧ b = b' := by
  have front := congrArg (List.takeWhile p) h
  rw [takeWhile_append_of_leaves ha hb, takeWhile_append_of_leaves ha' hb'] at front
  subst front
  exact ⟨rfl, List.append_cancel_left h⟩

/-- The first occurrence of a character cuts a text in one way. -/
theorem eq_of_append_cons (ha : c ∉ a) (ha' : c ∉ a') (h : a ++ c :: b = a' ++ c :: b') :
    a = a' ∧ b = b' := by
  have others : ∀ {a : List Char}, c ∉ a → ∀ d ∈ a, (d != c) = true := by
    intro a ha d hd
    exact bne_iff_ne.2 fun heq => ha (heq ▸ hd)
  have leaves : ∀ b, Leaves (fun d => d != c) (c :: b) := by
    rintro b d ⟨⟩
    exact bne_self_eq_false c
  obtain ⟨hfront, hrest⟩ := eq_of_cut (others ha) (leaves b) (others ha') (leaves b') h
  exact ⟨hfront, (List.cons.inj hrest).2⟩

/-- Padding is told from what is padded. -/
theorem eq_of_replicate (hb : Leaves (fun d => d == c) b) (hb' : Leaves (fun d => d == c) b')
    (h : List.replicate m c ++ b = List.replicate n c ++ b') : m = n ∧ b = b' := by
  have padding : ∀ k, ∀ d ∈ List.replicate k c, (d == c) = true := by
    intro k d hd
    exact beq_iff_eq.2 (List.eq_of_mem_replicate hd)
  obtain ⟨hfront, hrest⟩ := eq_of_cut (padding m) hb (padding n) hb' h
  have length := congrArg List.length hfront
  rw [List.length_replicate, List.length_replicate] at length
  exact ⟨length, hrest⟩

/-- Lines are told apart by the character that ends them. -/
theorem eq_of_flatMap_concat (hls : ∀ l ∈ ls, c ∉ l) (hls' : ∀ l ∈ ls', c ∉ l)
    (h : ls.flatMap (· ++ [c]) = ls'.flatMap (· ++ [c])) : ls = ls' := by
  induction ls generalizing ls' with
  | nil =>
    cases ls' with
    | nil => rfl
    | cons l' ls' => simp at h
  | cons l ls ih =>
    cases ls' with
    | nil => simp at h
    | cons l' ls' =>
      simp only [List.flatMap_cons, List.append_assoc, List.singleton_append] at h
      obtain ⟨hl, hls⟩ := List.forall_mem_cons.1 hls
      obtain ⟨hl', hls'⟩ := List.forall_mem_cons.1 hls'
      obtain ⟨first, rest⟩ := eq_of_append_cons hl hl' h
      rw [first, ih hls hls' rest]

theorem count_flatMap_concat (hls : ∀ l ∈ ls, c ∉ l) :
    (ls.flatMap (· ++ [c])).count c = ls.length := by
  induction ls with
  | nil => rfl
  | cons l ls ih =>
    obtain ⟨hl, hls⟩ := List.forall_mem_cons.1 hls
    rw [List.flatMap_cons, List.count_append, List.count_append, List.count_eq_zero.2 hl, ih hls,
      List.count_singleton_self, List.length_cons]
    omega

/-- A character that is no digit does not occur in a numeral. -/
theorem not_mem_digits (hc : c ∉ ['0', '1', '2', '3', '4', '5', '6', '7', '8', '9', 'a', 'b', 'c',
    'd', 'e', 'f']) (n : Nat) : c ∉ digits 10 n :=
  fun h => hc (mem_digits (by omega) (by omega) h)

end Text

/-! ## Kinds of statements -/

namespace Rules

open Piece

variable {r : Rules} {root b : Node} {run : Run} {outer : Option Span}

/-- Attachments that stand alone have the kind of the first of them. -/
theorem exists_kind_of_mem_blockPieces (h : .attachments run ∈ r.blockPieces b) :
    ∃ a ∈ b.children, run.kind = a.kind := by
  have alone : ∀ {before after ps rn frag}, r.Walks b before ps rn frag →
      b.children = before ++ after → .attachments run ∈ ofRun rn →
      ∃ a ∈ b.children, run.kind = a.kind := by
    intro before after ps rn frag hwalk hsplit hp
    cases rn with
    | none => simp [ofRun] at hp
    | some rn =>
      cases List.mem_singleton.1 hp
      obtain ⟨-, front, cs, rfl, hcs⟩ := hwalk.waits rfl
      obtain ⟨a, rest, rfl, -, -, hkind, -⟩ := hcs.first
      exact ⟨a, by simp [hsplit], hkind⟩
  have bare : ∀ {frag}, .attachments run ∉ ofFragment frag := by
    intro frag hp
    exact bare_of_mem_ofFragment hp
  rcases mem_blockPieces_cases h with
    ⟨before, c, after, ps, rn, frag, qs, rn', frag', hsplit, hwalk, htake, hp⟩ |
    ⟨ps, rn, frag, hwalk, hp | hp⟩
  · cases htake with
    | pass => simp at hp
    | absorb => simp at hp
    | attach | skip => exact absurd hp bare
    | statement => simp [bare] at hp
    | group =>
      simp only [List.mem_append, bare, false_or, List.mem_singleton, reduceCtorEq, or_false] at hp
      exact alone hwalk hsplit hp
    | recover =>
      simp only [List.mem_append, bare, false_or] at hp
      rcases hp with hp | hp
      · exact alone hwalk hsplit hp
      · exact absurd (bare_of_mem_regionPieces (List.mem_append_left _ hp)) id
  · exact absurd hp bare
  · exact alone hwalk (List.append_nil _).symm hp

/-- A statement has the kind of a node of the tree, if it is not a fragment. -/
theorem exists_kind_of_get? {s : Scope} {f : Forest} {i : Nat} {e : Entry}
    (h : Forest.ofSketch s (r.sketchRoot root) = .ok f) (he : f.get? i = some e) :
    e.kind = Forest.errorKind ∨ ∃ n ∈ root.preorder, e.kind = n.kind := by
  obtain ⟨outer, p, hp, hgives⟩ := exists_gives_of_get? h he
  rw [show e.kind = e.record.kind from rfl]
  generalize e.record = x at hgives
  cases hgives with
  | @statement start n parent =>
    exact .inr ⟨n, (hp.node_below rfl).mem_preorder, rfl⟩
  | fragment => exact .inl rfl
  | @attachments run parent =>
    rcases hp.source with ⟨b, hb, hpb⟩ | ⟨e, -, hpe⟩ | ⟨n, heq⟩
    · obtain ⟨a, ha, hkind⟩ := exists_kind_of_mem_blockPieces hpb
      have below : a ∈ b.preorder := (Node.Below.child ha).mem_preorder
      exact .inr ⟨a, Node.mem_preorder_trans below hb.mem_preorder, hkind⟩
    · exact absurd (bare_of_mem_regionPieces hpe) id
    · cases heq

end Rules

/-! ## Depths -/

namespace Forest

open Record

variable {f : Forest} {i p : Nat} {e : Entry}

theorem Sound.depth_eq_zero_iff (hf : f.Sound) (he : f.get? i = some e) :
    f.depth i = 0 ↔ e.parent = none := by
  constructor
  · intro hdepth
    rw [Option.eq_none_iff_forall_ne_some]
    intro p hp
    have deeper := hf.depth_of_parent (records_of_get? he) hp
    omega
  · intro hp
    rw [depth, ancestors, he, Option.bind_some, hp]
    rfl

/-- Of the positions before another one the first is the last that is less deep. -/
def LastLess (depth : Nat → Nat) (p i : Nat) : Prop :=
  p < i ∧ depth p < depth i ∧ ∀ k, p < k → k < i → depth i ≤ depth k

theorem LastLess.congr {depth depth' : Nat → Nat} (h : LastLess depth p i)
    (same : ∀ k ≤ i, depth k = depth' k) : LastLess depth' p i := by
  obtain ⟨hpi, hdepth, between⟩ := h
  refine ⟨hpi, ?_, fun k hpk hki => ?_⟩
  · rw [← same p (Nat.le_of_lt hpi), ← same i (Nat.le_refl i)]
    exact hdepth
  · rw [← same k (Nat.le_of_lt hki), ← same i (Nat.le_refl i)]
    exact between k hpk hki

/-- In pre-order the parent of a statement is the last one before it that is less deep. -/
theorem Sound.parent_eq_some_iff_depth (hf : f.Sound) (ho : Preordered f.records)
    (he : f.get? i = some e) : e.parent = some p ↔ LastLess f.depth p i := by
  have hr := records_of_get? he
  have last : ∀ {q}, e.parent = some q → LastLess f.depth q i := by
    intro q hq
    have next := hf.depth_of_parent hr hq
    refine ⟨hf.fitted.parent_lt hr hq, by omega, fun k hqk hki => ?_⟩
    -- Whatever stands between lies below the parent.
    have between := hf.depth_lt_of_under (ho i e.record q hr hq k hqk hki)
    omega
  constructor
  · exact last
  · rintro ⟨hpi, hdepth, between⟩
    cases hq : e.parent with
    | none =>
      rw [(hf.depth_eq_zero_iff he).2 hq] at hdepth
      omega
    | some q =>
      obtain ⟨hqi, hdepth', between'⟩ := last hq
      rcases Nat.lt_trichotomy p q with hpq | rfl | hqp
      · have := between q hpq hqi
        omega
      · rfl
      · have := between' p hqp hpi
        omega

end Forest

namespace Outline

open Text

variable {o o' : Outline} {e e' : Entry} {id : Nat}

/-! ## Lines -/

/-- The line of a statement with its indentation, without its end. -/
def lineOf (o : Outline) (id : Nat) : List Char :=
  ((o.get? id).map fun e => List.replicate (2 * o.forest.depth id) ' ' ++ o.describe e).getD []

def lines (o : Outline) : List (List Char) :=
  (List.range o.size).map o.lineOf

/-- The kind may be told from what stands around it on a line. -/
def PlainKind (kind : String) : Prop :=
  kind ≠ "" ∧ ' ' ∉ kind.toList ∧ '\n' ∉ kind.toList

instance (kind : String) : Decidable (PlainKind kind) :=
  inferInstanceAs (Decidable (kind ≠ "" ∧ ' ' ∉ kind.toList ∧ '\n' ∉ kind.toList))

theorem exists_entry (h : id < o.size) : ∃ e, o.get? id = some e :=
  ⟨o.forest.entries[id], Array.getElem?_eq_getElem h⟩

theorem lineOf_eq (he : o.get? id = some e) :
    o.lineOf id = List.replicate (2 * o.forest.depth id) ' ' ++ o.describe e := by
  rw [lineOf, he]
  rfl

/-- A dump consists of its lines, each with an end. -/
theorem toList_dump (o : Outline) : o.dump.toList = o.lines.flatMap (· ++ ['\n']) := by
  rw [dump, String.toList_ofList, lines, List.flatMap_map]
  apply List.flatMap_congr
  intro id hid
  obtain ⟨e, he⟩ := exists_entry (List.mem_range.1 hid)
  rw [lineOf_eq he, he]
  rfl

theorem describe_eq (o : Outline) (e : Entry) :
    o.describe e = e.kind.toList ++ ' ' :: '[' :: (digits 10 (o.rangeOf e).start ++ '.' :: '.' ::
      (digits 10 (o.rangeOf e).stop ++ ')' :: ' ' :: (shape e ++ ' ' ::
        quote (snippet (o.textOf e).toList)))) := by
  simp [describe, label, Span.text, decimal]

theorem eq_of_ends {s t : Span} (hstart : s.start = t.start) (hstop : s.stop = t.stop) : s = t := by
  cases s
  cases t
  simp_all

/-- The description of a statement tells its kind, its range and its shape, whatever its text. -/
theorem describe_inj (hk : PlainKind e.kind) (hk' : PlainKind e'.kind)
    (h : o.describe e = o'.describe e') :
    e.kind = e'.kind ∧ o.rangeOf e = o'.rangeOf e' ∧ e.compound = e'.compound := by
  have shape_word : ∀ e, ' ' ∉ shape e := by
    intro e
    unfold shape
    cases e.compound <;> decide
  rw [describe_eq, describe_eq] at h
  obtain ⟨kind, h⟩ := eq_of_append_cons hk.2.1 hk'.2.1 h
  obtain ⟨start, h⟩ := eq_of_append_cons (not_mem_digits (by decide) _)
    (not_mem_digits (by decide) _) (List.cons.inj h).2
  obtain ⟨stop, h⟩ := eq_of_append_cons (not_mem_digits (by decide) _)
    (not_mem_digits (by decide) _) (List.cons.inj h).2
  obtain ⟨word, -⟩ := eq_of_append_cons (shape_word e) (shape_word e') (List.cons.inj h).2
  refine ⟨String.toList_inj.1 kind, ?_, ?_⟩
  · exact eq_of_ends (digits_inj start) (digits_inj stop)
  · unfold shape at word
    revert word
    cases e.compound <;> cases e'.compound <;> decide

theorem newline_not_mem_describe (hk : PlainKind e.kind) : '\n' ∉ o.describe e := by
  have no_digit : ∀ n, '\n' ∉ digits 10 n := not_mem_digits (by decide)
  have shape_word : '\n' ∉ shape e := by
    unfold shape
    cases e.compound <;> decide
  have text : ∀ cs, '\n' ∉ quote cs := not_mem_quote (by decide)
  rw [describe_eq]
  simp [hk.2.2, no_digit, shape_word, text]

/-- The line of a statement tells its depth and what its description tells. -/
theorem lineOf_inj (he : o.get? id = some e) (he' : o'.get? id = some e') (hk : PlainKind e.kind)
    (hk' : PlainKind e'.kind) (h : o.lineOf id = o'.lineOf id) :
    o.forest.depth id = o'.forest.depth id ∧ e.kind = e'.kind ∧ o.rangeOf e = o'.rangeOf e' ∧
      e.compound = e'.compound := by
  have leaves : ∀ {o : Outline} {e : Entry}, PlainKind e.kind →
      Leaves (fun d => d == ' ') (o.describe e) := by
    intro o e hk c hc
    obtain ⟨d, cs, hkind⟩ := List.exists_cons_of_ne_nil (by simpa using hk.1 : e.kind.toList ≠ [])
    rw [describe_eq, hkind, List.cons_append, List.head?_cons] at hc
    obtain rfl := Option.some.inj hc
    have blank := hk.2.1
    rw [hkind] at blank
    exact beq_eq_false_iff_ne.2 fun heq => blank (heq ▸ List.mem_cons_self ..)
  rw [lineOf_eq he, lineOf_eq he'] at h
  obtain ⟨indent, rest⟩ := eq_of_replicate (leaves hk) (leaves hk') h
  exact ⟨by omega, describe_inj hk hk' rest⟩

/-- What the line of a statement shows is all that it depends on. -/
theorem lineOf_congr (he : o.get? id = some e) (he' : o'.get? id = some e')
    (depth : o.forest.depth id = o'.forest.depth id) (kind : e.kind = e'.kind)
    (range : o.rangeOf e = o'.rangeOf e') (compound : e.compound = e'.compound)
    (text : snippet (o.textOf e).toList = snippet (o'.textOf e').toList) :
    o.lineOf id = o'.lineOf id := by
  rw [lineOf_eq he, lineOf_eq he', describe, describe, label, label, shape, shape, depth, kind,
    range, compound, text]

/-! ## Dumps -/

/-- Statements are in pre-order, and their kinds can be read. -/
structure Legible (o : Outline) : Prop where
  sound : o.forest.Sound
  order : Record.Preordered o.forest.records
  kinds : ∀ id e, o.get? id = some e → PlainKind e.kind

/-- A dump has a line for each statement, and no others. -/
structure Lined (o : Outline) : Prop where
  toList_eq : o.dump.toList = o.lines.flatMap (· ++ ['\n'])
  length : o.lines.length = o.size
  unbroken : ∀ line ∈ o.lines, '\n' ∉ line
  count : o.dump.toList.count '\n' = o.size
  /-- Neither do the texts contain any other character at which a line may end. -/
  quoted : ∀ e, ∀ c ∈ quote (snippet (o.textOf e).toList), c ∉ lineBreaks

/-- Two outlines have the same statements, as far as a dump shows them, nested in the same way. -/
structure ShowsSame (o o' : Outline) : Prop where
  size : o.size = o'.size
  shown : ∀ id e e', o.get? id = some e → o'.get? id = some e' →
    e.kind = e'.kind ∧ o.rangeOf e = o'.rangeOf e' ∧ e.compound = e'.compound
  parent : ∀ id e e', o.get? id = some e → o'.get? id = some e' → e.parent = e'.parent
  childrenOf : ∀ parent, o.forest.childrenOf parent = o'.forest.childrenOf parent

/-- Outlines with the same lines have the same dump. -/
theorem dump_congr (size : o.size = o'.size) (h : ∀ id < o.size, o.lineOf id = o'.lineOf id) :
    o.dump = o'.dump := by
  have same : o.lines = o'.lines := by
    rw [lines, lines, ← size]
    exact List.map_congr_left fun id hid => h id (List.mem_range.1 hid)
  rw [← String.toList_inj, o.toList_dump, o'.toList_dump, same]

theorem length_lines (o : Outline) : o.lines.length = o.size := by
  rw [lines, List.length_map, List.length_range]

/-- No line of a dump is broken by what it shows. -/
theorem Legible.unbroken (h : o.Legible) : ∀ line ∈ o.lines, '\n' ∉ line := by
  intro line hline
  obtain ⟨id, hid, rfl⟩ := List.mem_map.1 hline
  obtain ⟨e, he⟩ := exists_entry (List.mem_range.1 hid)
  rw [lineOf_eq he, List.mem_append]
  rintro (hpad | hshown)
  · exact absurd (List.eq_of_mem_replicate hpad) (by decide)
  · exact newline_not_mem_describe (h.kinds id e he) hshown

theorem Legible.lined (h : o.Legible) : o.Lined := by
  constructor
  · exact o.toList_dump
  · exact o.length_lines
  · exact h.unbroken
  · rw [o.toList_dump, count_flatMap_concat h.unbroken, o.length_lines]
  · intro e c hc hbreak
    exact not_mem_quote hbreak _ hc

/-- The same lines are those of the same statements: depths tell the parents. -/
theorem Legible.showsSame (h : o.Legible) (h' : o'.Legible) (hlines : o.lines = o'.lines) :
    ShowsSame o o' := by
  have size : o.size = o'.size := by
    rw [← o.length_lines, ← o'.length_lines, hlines]
  have told : ∀ id e e', o.get? id = some e → o'.get? id = some e' →
      o.forest.depth id = o'.forest.depth id ∧ e.kind = e'.kind ∧ o.rangeOf e = o'.rangeOf e' ∧
        e.compound = e'.compound := by
    intro id e e' he he'
    obtain ⟨hid, -⟩ := Array.getElem?_eq_some_iff.1 he
    have same : o.lineOf id = o'.lineOf id := by
      rw [lines, lines, ← size] at hlines
      exact List.map_inj_left.1 hlines id (List.mem_range.2 hid)
    exact lineOf_inj he he' (h.kinds id e he) (h'.kinds id e' he') same
  have depth : ∀ id < o.size, o.forest.depth id = o'.forest.depth id := by
    intro id hid
    obtain ⟨e, he⟩ := exists_entry hid
    obtain ⟨e', he'⟩ := exists_entry (size ▸ hid)
    exact (told id e e' he he').1
  have parent : ∀ id e e', o.get? id = some e → o'.get? id = some e' → e.parent = e'.parent := by
    intro id e e' he he'
    obtain ⟨hid, -⟩ := Array.getElem?_eq_some_iff.1 he
    have depths : ∀ k ≤ id, o.forest.depth k = o'.forest.depth k := fun k hk =>
      depth k (Nat.lt_of_le_of_lt hk hid)
    apply Option.ext
    intro p
    rw [h.sound.parent_eq_some_iff_depth h.order he, h'.sound.parent_eq_some_iff_depth h'.order he']
    constructor
    · intro last
      exact last.congr depths
    · intro last
      exact last.congr fun k hk => (depths k hk).symm
  constructor
  · exact size
  · intro id e e' he he'
    exact (told id e e' he he').2
  · exact parent
  · intro p
    rw [← Array.toList_inj]
    have sorted := h.sound.laminar.increasing p
    apply sorted.eq_of_mem_iff (h'.sound.laminar.increasing p)
    intro j
    rw [h.sound.mem_childrenOf_iff, h'.sound.mem_childrenOf_iff]
    constructor
    · rintro ⟨x, hx, hp⟩
      obtain ⟨hj, -⟩ := Array.getElem?_eq_some_iff.1 hx
      obtain ⟨x', hx'⟩ := exists_entry (size ▸ hj : j < o'.size)
      exact ⟨x', hx', parent j x x' hx hx' ▸ hp⟩
    · rintro ⟨x', hx', hp⟩
      obtain ⟨hj, -⟩ := Array.getElem?_eq_some_iff.1 hx'
      obtain ⟨x, hx⟩ := exists_entry (size.symm ▸ hj : j < o.size)
      exact ⟨x, hx, parent j x x' hx hx' ▸ hp⟩

variable {language language' : Language} {source source' : String} {query query' : Span}
  {settings settings' : Settings} {root root' : Node}

/-- The kinds of the nodes are not empty and have neither spaces nor line breaks. -/
def PlainKinds (root : Node) : Prop :=
  root.All fun n => PlainKind n.kind

instance (root : Node) : Decidable (PlainKinds root) :=
  inferInstanceAs (Decidable (root.All fun n => PlainKind n.kind))

theorem legible_of_ofTree (hroot : PlainKinds root)
    (ho : ofTree language source query settings root = .ok o) : o.Legible := by
  obtain ⟨-, -, hf⟩ := built_of_ofTree ho
  refine ⟨Forest.sound_of_ofSketch hf, Forest.preordered_of_ofSketch hf, fun id e he => ?_⟩
  rcases Rules.exists_kind_of_get? hf he with hkind | ⟨n, hn, hkind⟩
  · rw [hkind]
    decide
  · rw [hkind]
    exact hroot n hn

/-- A block with a call whose argument is on the next line. -/
def brokenCall (argument : List Char) : String :=
  .ofList (['\x7b', 'f', '(', '\n', '"'] ++ argument ++ ['"', ')', ';', '\x7d'])

/-- The statement with a call that stops at a byte. -/
def callStatement (stop : Nat) : Node :=
  .mk ⟨"expression_statement", none, ⟨1, stop⟩, true, false, false, false, false⟩
    [.mk ⟨"call_expression", none, ⟨1, stop - 1⟩, true, false, false, false, false⟩ [],
      .mk ⟨";", none, ⟨stop - 1, stop⟩, false, false, false, false, false⟩ []]

/-- The tree of that source in C. -/
def brokenCallRoot (stop : Nat) : Node :=
  .mk ⟨"translation_unit", none, ⟨0, stop + 1⟩, true, false, false, false, false⟩
    [Forest.braces 0 (stop + 1) [callStatement stop]]

def blockEntry (stop : Nat) : Entry :=
  ⟨"compound_statement", ⟨0, stop + 1⟩, true, none, #[1]⟩

def callEntry (stop : Nat) : Entry :=
  ⟨"expression_statement", ⟨1, stop⟩, false, some 0, #[]⟩

def brokenCallForest (stop : Nat) : Forest :=
  ⟨#[blockEntry stop, callEntry stop], #[0]⟩

def brokenCallOutline (argument : List Char) (stop : Nat) : Outline :=
  holding .c (brokenCall argument) (wholeQuery (brokenCall argument) .utf16)
    ⟨.utf16, .intersecting, 100⟩ (brokenCallRoot stop) (brokenCallForest stop)

theorem sketchRoot_brokenCall {stop : Nat} (h : stop = 12 ∨ stop = 10) :
    Language.c.rules.sketchRoot (brokenCallRoot stop) =
      [.compound "compound_statement" ⟨0, stop + 1⟩
        [.simple "expression_statement" ⟨1, stop⟩]] := by
  have top : Language.c.rules.rootPieces (brokenCallRoot stop) =
      [.statement 0 (Forest.braces 0 (stop + 1) [callStatement stop])] := by
    obtain rfl | rfl := h <;> rfl
  have block : Language.c.rules.blockPieces (Forest.braces 0 (stop + 1) [callStatement stop]) =
      [.statement 1 (callStatement stop)] := by
    obtain rfl | rfl := h <;> rfl
  simp only [Rules.sketchRoot, top, Rules.sketchAll, List.flatMap_cons, List.flatMap_nil]
  rw [Rules.sketch_of_members rfl, block]
  simp only [Rules.sketchAll, List.flatMap_cons, List.flatMap_nil]
  rw [Rules.sketch_of_simple rfl]
  rfl

theorem ofTree_brokenCall (argument : List Char) {stop : Nat} (h : stop = 12 ∨ stop = 10)
    (bytes : totalBytes (brokenCall argument).toList = stop + 1) :
    ofTree .c (brokenCall argument) (wholeQuery (brokenCall argument) .utf16)
      ⟨.utf16, .intersecting, 100⟩ (brokenCallRoot stop) =
        .ok (brokenCallOutline argument stop) := by
  have small : totalBytes (brokenCall argument).toList ≤ (100 : UInt64).toNat := by
    rw [bytes]
    obtain rfl | rfl := h <;> decide
  have accepted : Accepted (brokenCall argument) (wholeQuery (brokenCall argument) .utf16)
      ⟨.utf16, .intersecting, 100⟩ :=
    ⟨small, Nat.zero_le _, Nat.le_refl _⟩
  refine ofTree_eq_ok_iff.2 ⟨accepted, brokenCallForest stop, ?_, rfl⟩
  rw [scopeOf_wholeQuery accepted.size_lt, bytes, sketchRoot_brokenCall h]
  obtain rfl | rfl := h <;> rfl

/-- In UTF-16 the call is as long with one wide character as with two narrow ones, and the line with
the argument is not shown. -/
theorem dump_brokenCall :
    (brokenCallOutline ['😀'] 12).dump = (brokenCallOutline ['a', 'b'] 10).dump := by
  have block : ∀ argument stop,
      (brokenCallOutline argument stop).get? 0 = some (blockEntry stop) := fun _ _ => rfl
  have call : ∀ argument stop,
      (brokenCallOutline argument stop).get? 1 = some (callEntry stop) := fun _ _ => rfl
  have size : ∀ argument stop, (brokenCallOutline argument stop).size = 2 := fun _ _ => rfl
  apply dump_congr (by rw [size, size])
  intro id hid
  rw [size] at hid
  match id, hid with
  | 0, _ => refine lineOf_congr (block _ _) (block _ _) ?_ rfl ?_ rfl ?_ <;> decide +kernel
  | 1, _ => refine lineOf_congr (call _ _) (call _ _) ?_ rfl ?_ rfl ?_ <;> decide +kernel

end Outline

end StatementOutline
