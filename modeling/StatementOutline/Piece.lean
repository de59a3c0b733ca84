import StatementOutline.Body

/-!
# Pieces

The children of a block fall into pieces: statements, each with the attachments in front of it;
runs of attachments that no statement follows; groups that are seen through; and what is found in
errors. An error is cut into the statements and blocks recovered from it and, between them, into
fragments that cover the rest. The last fragment of an error stays open until the next child, which
is joined to it when it is a lone terminator.

`below_of_mem_members` says that every piece with a node comes from below the block.
-/

namespace StatementOutline

/-- Attachments in a row: the kind of the first and the span of all. -/
structure Run where
  kind : String
  span : Span

/-- What the children of a block fall into. -/
inductive Piece
  /-- A statement, with the place where its attachments start. -/
  | statement (start : Nat) (node : Node)
  /-- The text of an error between the statements recovered from it. -/
  | fragment (span : Span)
  /-- Attachments that no statement follows. -/
  | attachments (run : Run)
  /-- A node that is seen through. -/
  | group (node : Node)
  /-- A block recovered from an error. -/
  | block (node : Node)

namespace Piece

/-- The node whose statements are nested in the piece. -/
def node? : Piece → Option Node
  | statement _ n | group n | block n => some n
  | fragment _ | attachments _ => none

/-- The piece that an open fragment comes to. -/
def ofFragment : Option Span → List Piece
  | none => []
  | some s => [.fragment s]

/-- The piece that attachments come to when no statement follows. -/
def ofRun : Option Run → List Piece
  | none => []
  | some run => [.attachments run]

@[simp]
theorem node?_of_mem_ofFragment {p : Piece} {frag : Option Span} (h : p ∈ ofFragment frag) :
    p.node? = none := by
  cases frag <;> simp_all [ofFragment, node?]

@[simp]
theorem node?_of_mem_ofRun {p : Piece} {run : Option Run} (h : p ∈ ofRun run) :
    p.node? = none := by
  cases run <;> simp_all [ofRun, node?]

end Piece

namespace Node

/-- The node may be a member of the block it stands in: it has a name and covers some text, the
parser found it in the source, and it is neither a comment nor part of a head. -/
def isMember (n : Node) : Bool :=
  n.isSolid && !n.missing && !n.isEmpty && !n.inHeader

/-- The node has no named children and is one byte long, as a semicolon is. -/
def isTerminator (n : Node) : Bool :=
  n.namedCount == 0 && n.stop - n.start == 1

/-- The node stands for no text of an error: it is missing, empty or a comment. -/
def isVoid (n : Node) : Bool :=
  n.missing || n.isEmpty || n.isComment

mutual
/-- The pieces of an error, those of the errors inside it among them. -/
def shards : Node → List Node
  | .mk _ cs => shardsAll cs

/-- The pieces of an error that has these children. -/
def shardsAll : List Node → List Node
  | [] => []
  | c :: cs =>
    (if c.isVoid then [] else if c.error then c.shards else [c]) ++ shardsAll cs
end

end Node

/-- The span of an open fragment with a node behind it. -/
def joinFragment (frag : Option Span) (n : Node) : Span :=
  ⟨(frag.map Span.start).getD n.start, n.stop⟩

/-- The attachments so far with one more behind them. -/
def joinRun (run : Option Run) (n : Node) : Run :=
  match run with
  | none => ⟨n.kind, n.span⟩
  | some r => ⟨r.kind, ⟨r.span.start, n.stop⟩⟩

/-- Where a statement starts when its attachments are counted in. -/
def startAfter (run : Option Run) (n : Node) : Nat :=
  (run.map fun r => r.span.start).getD n.start

namespace Rules

/-- Cuts the shards of an error: a statement or a block is a piece, and what lies between two of
them is a fragment. Gives the pieces and the fragment that is still open at the end. -/
def cut (r : Rules) : Option Span → List Node → List Piece × Option Span
  | frag, [] => ([], frag)
  | frag, s :: rest =>
    if s.named && r.isStatement s.kind then
      let (ps, last) := r.cut none rest
      (Piece.ofFragment frag ++ .statement s.start s :: ps, last)
    else if s.named && r.isBlock s.kind then
      let (ps, last) := r.cut none rest
      (Piece.ofFragment frag ++ .block s :: ps, last)
    else
      r.cut (some (joinFragment frag s)) rest

/-- The pieces of an error with nothing behind it. -/
def regionPieces (r : Rules) (n : Node) : List Piece :=
  let (ps, last) := r.cut none n.shards
  ps ++ Piece.ofFragment last

/-- The pieces that the children of a block fall into, given the attachments and the fragment that
are open in front of them. -/
def members (r : Rules) (container : Bool) :
    Option Run → Option Span → List Node → List Piece
  | run, frag, [] => Piece.ofFragment frag ++ Piece.ofRun run
  | run, frag, c :: cs =>
    if c.isMember then
      let role := r.role c.kind c.error container
      if frag.isSome && role.isStatement && c.isTerminator then
        .fragment (joinFragment frag c) :: r.members container run none cs
      else
        Piece.ofFragment frag ++
          match role with
          | .attachment => r.members container (some (joinRun run c)) none cs
          | .statement _ =>
            .statement (startAfter run c) c :: r.members container none none cs
          | .transparent => Piece.ofRun run ++ .group c :: r.members container none none cs
          | .recovered =>
            let (ps, last) := r.cut none c.shards
            Piece.ofRun run ++ ps ++ r.members container none last cs
          | .skipped => r.members container run none cs
    else r.members container run frag cs

/-- The pieces of a block. -/
def blockPieces (r : Rules) (n : Node) : List Piece :=
  r.members (r.isContainer n.kind) none none n.children

/-- The pieces of one part of a body. -/
def partPieces (r : Rules) : Part → List Piece
  | .block b => r.blockPieces b
  | .inline s => [.statement s.start s]
  | .recovered e => r.regionPieces e

/-- The pieces nested in a piece. Those of a statement count only if it is compound. -/
def inner (r : Rules) : Piece → List Piece
  | .statement _ n => if r.isCompound n then (r.partsOf n).flatMap r.partPieces else []
  | .group n | .block n => r.blockPieces n
  | .fragment _ | .attachments _ => []

/-- The pieces of a whole tree. -/
def rootPieces (r : Rules) (root : Node) : List Piece :=
  if root.error then r.regionPieces root else r.blockPieces root

end Rules

/-! ## Where pieces lie -/

namespace Node

mutual
theorem below_of_mem_shards {s : Node} : ∀ {n : Node}, s ∈ n.shards → Below s n
  | .mk l cs, h => by
    obtain ⟨c, hc, hs⟩ := below_of_mem_shardsAll h
    have hcn : Below c (.mk l cs) := .child hc
    rcases hs with rfl | hs
    · exact hcn
    · exact hs.trans hcn

theorem below_of_mem_shardsAll {s : Node} :
    ∀ {cs : List Node}, s ∈ shardsAll cs → ∃ c ∈ cs, s = c ∨ Below s c
  | [], h => by simp [shardsAll] at h
  | c :: cs, h => by
    unfold shardsAll at h
    rcases List.mem_append.1 h with h | h
    · split at h
      · simp at h
      · split at h
        · exact ⟨c, by simp, .inr (below_of_mem_shards h)⟩
        · exact ⟨c, by simp, .inl (List.mem_singleton.1 h)⟩
    · obtain ⟨d, hd, hs⟩ := below_of_mem_shardsAll h
      exact ⟨d, by simp [hd], hs⟩
end

end Node

namespace Rules

theorem mem_of_mem_cut {r : Rules} {q : Piece} {n : Node} (hn : q.node? = some n)
    {frag : Option Span} {ss : List Node} (h : q ∈ (r.cut frag ss).1) : n ∈ ss := by
  fun_induction cut r frag ss with
  | case1 => simp at h
  | case2 frag s rest _ ps last hcut ih =>
    simp only [List.mem_append, List.mem_cons] at h
    rcases h with h | rfl | h
    · simp [Piece.node?_of_mem_ofFragment h] at hn
    · simp_all [Piece.node?]
    · exact List.mem_cons_of_mem _ (ih (by simpa [hcut] using h))
  | case3 frag s rest _ _ ps last hcut ih =>
    simp only [List.mem_append, List.mem_cons] at h
    rcases h with h | rfl | h
    · simp [Piece.node?_of_mem_ofFragment h] at hn
    · simp_all [Piece.node?]
    · exact List.mem_cons_of_mem _ (ih (by simpa [hcut] using h))
  | case4 frag s rest _ _ ih => exact List.mem_cons_of_mem _ (ih h)

/-- What holds of each statement and block among the shards, and goes over from an open fragment to
the one with a shard behind it, holds of all that the shards are cut into. -/
theorem forall_mem_cut {r : Rules} {Q : Piece → Prop} {frag : Option Span} {ss : List Node}
    (hstatement : ∀ s ∈ ss, Q (.statement s.start s)) (hblock : ∀ s ∈ ss, Q (.block s))
    (hjoin : ∀ frag, ∀ s ∈ ss, (∀ p ∈ Piece.ofFragment frag, Q p) →
      Q (.fragment (joinFragment frag s)))
    (hfrag : ∀ p ∈ Piece.ofFragment frag, Q p) :
    ∀ p ∈ (r.cut frag ss).1 ++ Piece.ofFragment (r.cut frag ss).2, Q p := by
  have closed : ∀ p ∈ Piece.ofFragment none, Q p := by simp [Piece.ofFragment]
  fun_induction cut r frag ss with
  | case1 frag => exact hfrag
  | case2 frag s rest _ ps last hcut ih =>
    obtain ⟨hs, hstatements⟩ := List.forall_mem_cons.1 hstatement
    have later := ih hstatements (fun t ht => hblock t (List.mem_cons_of_mem _ ht))
      (fun frag t ht => hjoin frag t (List.mem_cons_of_mem _ ht)) closed
    rw [hcut] at later
    rw [List.append_assoc]
    exact List.forall_mem_append.2 ⟨hfrag, List.forall_mem_cons.2 ⟨hs, later⟩⟩
  | case3 frag s rest _ _ ps last hcut ih =>
    obtain ⟨hs, hblocks⟩ := List.forall_mem_cons.1 hblock
    have later := ih (fun t ht => hstatement t (List.mem_cons_of_mem _ ht)) hblocks
      (fun frag t ht => hjoin frag t (List.mem_cons_of_mem _ ht)) closed
    rw [hcut] at later
    rw [List.append_assoc]
    exact List.forall_mem_append.2 ⟨hfrag, List.forall_mem_cons.2 ⟨hs, later⟩⟩
  | case4 frag s rest _ _ ih =>
    have joined := hjoin frag s (List.mem_cons_self ..) hfrag
    exact ih (fun t ht => hstatement t (List.mem_cons_of_mem _ ht))
      (fun t ht => hblock t (List.mem_cons_of_mem _ ht))
      (fun frag t ht => hjoin frag t (List.mem_cons_of_mem _ ht))
      (by simpa [Piece.ofFragment] using joined)

theorem below_of_mem_regionPieces {r : Rules} {q : Piece} {n e : Node} (hn : q.node? = some n)
    (h : q ∈ r.regionPieces e) : Node.Below n e := by
  simp only [regionPieces, List.mem_append] at h
  rcases h with h | h
  · exact Node.below_of_mem_shards (mem_of_mem_cut hn h)
  · simp [Piece.node?_of_mem_ofFragment h] at hn

/-- A piece with a node has it from a member or from an error. -/
theorem member_or_shard_of_mem_members {r : Rules} {container : Bool} {q : Piece} {n : Node}
    (hn : q.node? = some n) {run : Option Run} {frag : Option Span} {cs : List Node}
    (h : q ∈ r.members container run frag cs) :
    ∃ c ∈ cs, n = c ∧ c.isMember = true ∨ n ∈ c.shards := by
  induction cs generalizing run frag with
  | nil =>
    simp only [members, List.mem_append] at h
    rcases h with h | h
    · simp [Piece.node?_of_mem_ofFragment h] at hn
    · simp [Piece.node?_of_mem_ofRun h] at hn
  | cons c cs ih =>
    have later : ∀ {run frag}, q ∈ r.members container run frag cs →
        ∃ d ∈ c :: cs, n = d ∧ d.isMember = true ∨ n ∈ d.shards := fun h => by
      obtain ⟨d, hd, hnd⟩ := ih h
      exact ⟨d, by simp [hd], hnd⟩
    unfold members at h
    split at h
    · next hm =>
      have here : q.node? = some c → ∃ d ∈ c :: cs, n = d ∧ d.isMember = true ∨ n ∈ d.shards :=
        fun hc => ⟨c, by simp, .inl ⟨by simpa [hn] using hc, hm⟩⟩
      dsimp only at h
      split at h
      · rcases List.mem_cons.1 h with rfl | h
        · simp [Piece.node?] at hn
        · exact later h
      · rcases List.mem_append.1 h with h | h
        · simp [Piece.node?_of_mem_ofFragment h] at hn
        · split at h
          · exact later h
          · rcases List.mem_cons.1 h with rfl | h
            · exact here rfl
            · exact later h
          · rcases List.mem_append.1 h with h | h
            · simp [Piece.node?_of_mem_ofRun h] at hn
            · rcases List.mem_cons.1 h with rfl | h
              · exact here rfl
              · exact later h
          · simp only [List.mem_append] at h
            rcases h with (h | h) | h
            · simp [Piece.node?_of_mem_ofRun h] at hn
            · exact ⟨c, by simp, .inr (mem_of_mem_cut hn h)⟩
            · exact later h
          · exact later h
    · exact later h

theorem below_of_mem_members {r : Rules} {container : Bool} {q : Piece} {n : Node}
    (hn : q.node? = some n) {run : Option Run} {frag : Option Span} {cs : List Node}
    (h : q ∈ r.members container run frag cs) : ∃ c ∈ cs, n = c ∨ Node.Below n c := by
  obtain ⟨c, hc, ⟨rfl, -⟩ | hs⟩ := member_or_shard_of_mem_members hn h
  · exact ⟨n, hc, .inl rfl⟩
  · exact ⟨c, hc, .inr (Node.below_of_mem_shards hs)⟩

theorem below_of_mem_blockPieces {r : Rules} {q : Piece} {n b : Node} (hn : q.node? = some n)
    (h : q ∈ r.blockPieces b) : Node.Below n b := by
  obtain ⟨c, hc, hnc⟩ := below_of_mem_members hn h
  have hcb : Node.Below c b := .child hc
  rcases hnc with rfl | hnc
  · exact hcb
  · exact hnc.trans hcb

end Rules

end StatementOutline
