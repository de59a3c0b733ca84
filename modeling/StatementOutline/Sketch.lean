import StatementOutline.Piece

/-!
# Sketches

A sketch is the outline of a parse tree before any query: its statements, nested as they stand,
together with the text of errors and with attachments that stand alone. Groups keep their span,
because a query that misses a group misses all of it.
-/

namespace StatementOutline

inductive Sketch
  /-- A statement without nested statements. -/
  | simple (kind : String) (span : Span)
  /-- A statement with a block in its body. -/
  | compound (kind : String) (span : Span) (body : List Sketch)
  /-- The text of an error. -/
  | fragment (span : Span)
  /-- Attachments that no statement follows. -/
  | attachments (run : Run)
  /-- A node that is seen through. -/
  | group (span : Span) (body : List Sketch)

namespace Piece

/-- The size of the part of the tree that a piece stands for. -/
noncomputable def weight (p : Piece) : Nat :=
  (p.node?.map sizeOf).getD 0

theorem weight_of_node? {p : Piece} {n : Node} (h : p.node? = some n) : p.weight = sizeOf n := by
  simp [weight, h]

theorem weight_lt {p q : Piece} {n : Node} (hp : p.node? = some n)
    (h : ∀ m, q.node? = some m → Node.Below m n) : q.weight < p.weight := by
  rw [weight_of_node? hp]
  cases hq : q.node? with
  | none =>
    have : 0 < sizeOf n := by
      cases n
      rw [Node.mk.sizeOf_spec]
      omega
    simpa [weight, hq]
  | some m =>
    rw [weight_of_node? hq]
    exact (h m hq).sizeOf_lt

end Piece

namespace Rules

theorem below_of_mem_inner {r : Rules} {p q : Piece} {n m : Node} (hp : p.node? = some n)
    (hq : q.node? = some m) (h : q ∈ r.inner p) : Node.Below m n := by
  cases p with
  | statement start s =>
    obtain rfl : s = n := by simpa [Piece.node?] using hp
    simp only [inner] at h
    split at h
    · obtain ⟨part, hpart, h⟩ := List.mem_flatMap.1 h
      have hb : ∀ body, r.body? s.kind = some body → part ∈ r.parts s body := fun body hbody => by
        simpa [partsOf, hbody] using hpart
      cases hbody : r.body? s.kind with
      | none => simp [partsOf, hbody] at hpart
      | some body =>
        rcases below_of_mem_parts (hb body hbody) with rfl | hpn
        · exact below_of_mem_blockPieces hq h
        · cases part with
          | block b => exact (below_of_mem_blockPieces hq h).trans hpn
          | inline t =>
            obtain rfl := List.mem_singleton.1 h
            obtain rfl : t = m := by simpa [Piece.node?] using hq
            exact hpn
          | recovered e => exact (below_of_mem_regionPieces hq h).trans hpn
    · simp at h
  | group g =>
    obtain rfl : g = n := by simpa [Piece.node?] using hp
    exact below_of_mem_blockPieces hq h
  | block b =>
    obtain rfl : b = n := by simpa [Piece.node?] using hp
    exact below_of_mem_blockPieces hq h
  | fragment _ => simp [Piece.node?] at hp
  | attachments _ => simp [Piece.node?] at hp

theorem weight_lt_of_mem_inner {r : Rules} {p q : Piece} (h : q ∈ r.inner p) :
    q.weight < p.weight := by
  cases hp : p.node? with
  | none => cases p <;> simp_all [Piece.node?, inner]
  | some n => exact Piece.weight_lt hp fun m hm => below_of_mem_inner hp hm h

/-- The sketch of one piece. A block recovered from an error leaves no trace of its own. -/
def sketch (r : Rules) (p : Piece) : List Sketch :=
  let nested := (r.inner p).attach.flatMap fun q => r.sketch q.1
  match p with
  | .statement start n =>
    if r.isCompound n then [.compound n.kind ⟨start, n.stop⟩ nested]
    else [.simple n.kind ⟨start, n.stop⟩]
  | .fragment s => [.fragment s]
  | .attachments run => [.attachments run]
  | .group n => [.group n.span nested]
  | .block _ => nested
termination_by p.weight
decreasing_by exact weight_lt_of_mem_inner q.2

/-- The sketch of several pieces. -/
def sketchAll (r : Rules) (ps : List Piece) : List Sketch :=
  ps.flatMap r.sketch

theorem sketch_eq {r : Rules} (p : Piece) :
    r.sketch p = match p with
      | .statement start n =>
        if r.isCompound n then [.compound n.kind ⟨start, n.stop⟩ (r.sketchAll (r.inner p))]
        else [.simple n.kind ⟨start, n.stop⟩]
      | .fragment s => [.fragment s]
      | .attachments run => [.attachments run]
      | .group n => [.group n.span (r.sketchAll (r.inner p))]
      | .block _ => r.sketchAll (r.inner p) := by
  have hn : (r.inner p).attach.flatMap (fun q => r.sketch q.1) = r.sketchAll (r.inner p) := by
    unfold sketchAll
    conv => rhs; rw [← List.attach_map_subtype_val (r.inner p), List.flatMap_map]
  rw [sketch.eq_def]
  cases p <;> simp only [hn]

theorem sketch_of_simple {r : Rules} {start : Nat} {n : Node} (h : r.body? n.kind = some .simple) :
    r.sketch (.statement start n) = [.simple n.kind ⟨start, n.stop⟩] := by
  have hc : r.isCompound n = false := by simp [isCompound, partsOf, h, parts]
  rw [sketch_eq]
  simp [hc]

theorem sketch_of_members {r : Rules} {start : Nat} {n : Node}
    (h : r.body? n.kind = some .members) : r.sketch (.statement start n) =
      [.compound n.kind ⟨start, n.stop⟩ (r.sketchAll (r.blockPieces n))] := by
  have hparts : r.partsOf n = [.block n] := by simp [partsOf, h, parts]
  have hc : r.isCompound n = true := by simp [isCompound, hparts, Part.isBlock]
  have hinner : r.inner (.statement start n) = r.blockPieces n := by
    simp [inner, hc, hparts, partPieces]
  rw [sketch_eq, ← hinner]
  simp [hc]

/-- The sketch of a whole tree. -/
def sketchRoot (r : Rules) (root : Node) : List Sketch :=
  r.sketchAll (r.rootPieces root)

end Rules

end StatementOutline
