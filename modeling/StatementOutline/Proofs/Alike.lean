import Mathlib.Data.List.Forall2
import StatementOutline.Piece
import StatementOutline.Grammar.Profile

/-!
# Trees that differ inside shut nodes

Simple statements, closed nodes and expressions are shut: what is inside them is never looked at, but
for the named children of a node of one byte, which tell whether it is a terminator. Trees are alike
if they differ only inside shut nodes, and no path leads to one of these.

* `Alike`, `OpenAlike`: such trees; the root of the second kind is not one of the shut nodes;
* `find?_alike`, `follow?_alike`: what is found in one of the trees is found in the other.
-/

namespace StatementOutline

namespace Rules

/-- Some list of the rules has the kind, not counting the closed kinds. -/
def Lists (r : Rules) (kind : String) : Bool :=
  r.isStatement kind || r.isBlock kind || r.isClause kind || r.isContainer kind ||
    r.isAttachment kind

/-- A node of the kind is shut: it is a simple statement, or else no other list of the rules has the
kind and it is closed or an expression. -/
def Shuts (r : Rules) (kind : String) : Prop :=
  r.body? kind = some .simple ∨
    r.Lists kind = false ∧ (r.isClosed kind = true ∨ isExpressionKind kind = true)

instance (r : Rules) (kind : String) : Decidable (r.Shuts kind) :=
  inferInstanceAs (Decidable (r.body? kind = some .simple ∨
    r.Lists kind = false ∧ (r.isClosed kind = true ∨ isExpressionKind kind = true)))

end Rules

namespace Node

mutual
/-- The trees are the same but for what is inside some shut nodes, and for the marks that say where
there is damage. A node of one byte has as many named children in both. No path leads to the nodes
that differ inside. -/
inductive Alike (r : Rules) : Node → Node → Prop
  | shut {l : Label} {damaged : Bool} {cs cs' : List Node} : l.error = false → r.Shuts l.kind →
      (l.span.stop - l.span.start = 1 → cs.countP Node.named = cs'.countP Node.named) →
      Alike r (.mk l cs) (.mk { l with damaged } cs')
  | opened {n n' : Node} : OpenAlike r n n' → Alike r n n'

/-- The same of trees that do not differ right inside their roots. -/
inductive OpenAlike (r : Rules) : Node → Node → Prop
  | mk {l : Label} {damaged : Bool} {cs cs' : List Node} : List.Forall₂ (Alike r) cs cs' →
      (∀ steps names c c', r.body? l.kind = some (.path steps) → names <+: steps → names ≠ [] →
        (Node.mk l cs).follow? names = some c →
        (Node.mk { l with damaged } cs').follow? names = some c' → OpenAlike r c c') →
      OpenAlike r (.mk l cs) (.mk { l with damaged } cs')
end

end Node

/-! ## Shut kinds -/

/-- In no language is a simple statement seen through or part of another one. -/
theorem Language.body?_ne_simple (l : Language) :
    ∀ kind ∈ l.rules.blocks ++ l.rules.clauses, l.rules.body? kind ≠ some .simple := by
  cases l <;> decide +kernel

namespace Rules

variable {l : Language} {kind : String} {n : Node}

theorem Shuts.isBlock_eq_false (h : l.rules.Shuts kind) : l.rules.isBlock kind = false := by
  rcases h with simple | ⟨lists, -⟩
  · by_contra hblock
    have hmem : kind ∈ l.rules.blocks := by simpa [isBlock] using hblock
    exact l.body?_ne_simple kind (List.mem_append_left _ hmem) simple
  · simp_all [Lists]

theorem Shuts.isClause_eq_false (h : l.rules.Shuts kind) : l.rules.isClause kind = false := by
  rcases h with simple | ⟨lists, -⟩
  · by_contra hclause
    have hmem : kind ∈ l.rules.clauses := by simpa [isClause] using hclause
    exact l.body?_ne_simple kind (List.mem_append_right _ hmem) simple
  · simp_all [Lists]

theorem Shuts.body_eq_simple (h : l.rules.Shuts kind) {body : Body}
    (hbody : l.rules.body? kind = some body) : body = .simple := by
  rcases h with simple | ⟨lists, -⟩
  · simpa [hbody] using simple
  · simp [Lists, isStatement, hbody] at lists

/-- A shut node has no body. -/
theorem Shuts.partsOf_eq_nil (h : l.rules.Shuts n.kind) : l.rules.partsOf n = [] := by
  cases hbody : l.rules.body? n.kind with
  | none => simp [partsOf, hbody]
  | some body =>
    obtain rfl := h.body_eq_simple hbody
    simp [partsOf, hbody, parts]

/-- A shut node is part of a body only where it stands in place of a block. -/
theorem Shuts.collect_eq (h : l.rules.Shuts n.kind) (herror : n.error = false) :
    l.rules.collect n = if l.rules.isStatement n.kind then [.inline n] else [] := by
  cases n with
  | mk label cs =>
    simp only [collect, show label.error = false from herror,
      show l.rules.isBlock label.kind = false from h.isBlock_eq_false,
      show l.rules.isClause label.kind = false from h.isClause_eq_false, Bool.false_eq_true, if_false]
    rfl

/-- A shut node is not seen through. -/
theorem Shuts.role_ne_transparent (h : l.rules.Shuts kind) (container : Bool) :
    l.rules.role kind false container ≠ .transparent := by
  rcases h with simple | ⟨lists, rest⟩
  · simp [role, simple]
  · simp only [Lists, isStatement, Bool.or_eq_false_iff, Option.isSome_eq_false_iff,
      Option.isNone_iff_eq_none] at lists
    obtain ⟨⟨⟨⟨hbody, hblock⟩, hclause⟩, -⟩, hattachment⟩ := lists
    rcases rest with closed | expression
    · simp [role, hbody, hblock, hclause, hattachment, closed]
    · simp only [role, hbody, hblock, hclause, hattachment, expression]
      cases l.rules.isClosed kind <;> cases container <;> simp

end Rules

/-! ## What alike nodes have in common -/

namespace Node

variable {r : Rules} {n n' : Node} {cs cs' : List Node}

theorem OpenAlike.exists_eq (h : OpenAlike r n n') :
    ∃ damaged cs', n' = .mk { n.label with damaged } cs' := by
  cases h with
  | mk => exact ⟨_, _, rfl⟩

theorem Alike.exists_eq (h : Alike r n n') :
    ∃ damaged cs', n' = .mk { n.label with damaged } cs' := by
  cases h with
  | shut => exact ⟨_, _, rfl⟩
  | opened h => exact h.exists_eq

theorem Alike.kind_eq (h : Alike r n n') : n'.kind = n.kind := by
  obtain ⟨_, _, rfl⟩ := h.exists_eq
  rfl

theorem Alike.field_eq (h : Alike r n n') : n'.field = n.field := by
  obtain ⟨_, _, rfl⟩ := h.exists_eq
  rfl

theorem Alike.span_eq (h : Alike r n n') : n'.span = n.span := by
  obtain ⟨_, _, rfl⟩ := h.exists_eq
  rfl

theorem Alike.start_eq (h : Alike r n n') : n'.start = n.start :=
  congrArg Span.start h.span_eq

theorem Alike.stop_eq (h : Alike r n n') : n'.stop = n.stop :=
  congrArg Span.stop h.span_eq

theorem Alike.named_eq (h : Alike r n n') : n'.named = n.named := by
  obtain ⟨_, _, rfl⟩ := h.exists_eq
  rfl

theorem Alike.error_eq (h : Alike r n n') : n'.error = n.error := by
  obtain ⟨_, _, rfl⟩ := h.exists_eq
  rfl

theorem Alike.missing_eq (h : Alike r n n') : n'.missing = n.missing := by
  obtain ⟨_, _, rfl⟩ := h.exists_eq
  rfl

theorem Alike.inHeader_eq (h : Alike r n n') : n'.inHeader = n.inHeader := by
  obtain ⟨_, _, rfl⟩ := h.exists_eq
  rfl

theorem Alike.isSolid_eq (h : Alike r n n') : n'.isSolid = n.isSolid := by
  obtain ⟨_, _, rfl⟩ := h.exists_eq
  rfl

theorem Alike.isMember_eq (h : Alike r n n') : n'.isMember = n.isMember := by
  obtain ⟨_, _, rfl⟩ := h.exists_eq
  rfl

theorem Alike.isVoid_eq (h : Alike r n n') : n'.isVoid = n.isVoid := by
  obtain ⟨_, _, rfl⟩ := h.exists_eq
  rfl

theorem OpenAlike.children (h : OpenAlike r n n') :
    List.Forall₂ (Alike r) n.children n'.children := by
  cases h with
  | mk hcs => exact hcs

theorem OpenAlike.of_path {steps names : List String} {c c' : Node} (h : OpenAlike r n n')
    (hbody : r.body? n.kind = some (.path steps)) (hfront : names <+: steps) (hne : names ≠ [])
    (hc : n.follow? names = some c) (hc' : n'.follow? names = some c') : OpenAlike r c c' := by
  cases h with
  | mk _ hpath => exact hpath steps names c c' hbody hfront hne hc hc'

/-- Alike nodes that are not shut do not differ right inside. -/
theorem Alike.openAlike (h : Alike r n n') (hopen : n.error = false → ¬ r.Shuts n.kind) :
    OpenAlike r n n' := by
  cases h with
  | shut herror hshut => exact absurd hshut (hopen herror)
  | opened h => exact h

theorem countP_named_eq (h : List.Forall₂ (Alike r) cs cs') :
    cs'.countP Node.named = cs.countP Node.named := by
  induction h with
  | nil => rfl
  | cons hc _ ih => simp only [List.countP_cons, ih, hc.named_eq]

theorem Alike.isTerminator_eq (h : Alike r n n') : n'.isTerminator = n.isTerminator := by
  cases h with
  | @shut l damaged cs cs' _ _ count =>
    by_cases hone : l.span.stop - l.span.start = 1
    · simp only [isTerminator, namedCount, Node.children, count hone]
      rfl
    · have long : (l.span.stop - l.span.start == 1) = false := beq_eq_false_iff_ne.2 hone
      simp [isTerminator, Node.stop, Node.start, Node.span, Node.label, long]
  | opened h =>
    have count : n'.namedCount = n.namedCount := countP_named_eq h.children
    simp only [isTerminator, count, Node.stop, Node.start, (Alike.opened h).span_eq]

/-- Where no path starts at the root, the children decide alone. -/
theorem OpenAlike.of_children {label : Label} {damaged : Bool}
    (hcs : List.Forall₂ (Alike r) cs cs')
    (no_path : ∀ steps, r.body? label.kind ≠ some (.path steps)) :
    OpenAlike r (.mk label cs) (.mk { label with damaged } cs') :=
  .mk hcs fun steps _ _ _ hbody _ _ _ _ => absurd hbody (no_path steps)

/-- Every tree is like itself. -/
theorem OpenAlike.refl (n : Node) : OpenAlike r n n := by
  induction hw : sizeOf n using Nat.strongRecOn generalizing n with
  | ind w ih =>
    subst hw
    have below : ∀ {c}, Below c n → OpenAlike r c c := fun hc => ih _ hc.sizeOf_lt _ rfl
    cases n with
    | mk label cs =>
      have each : List.Forall₂ (Alike r) cs cs :=
        List.forall₂_same.2 fun c hc => .opened (below (.child hc))
      refine @OpenAlike.mk r label label.damaged cs cs each ?_
      intro steps names c c' _ _ hne hc hc'
      obtain rfl : c = c' := Option.some.inj (hc.symm.trans hc')
      obtain ⟨name, rest, rfl⟩ := List.exists_cons_of_ne_nil hne
      rw [follow?] at hc
      split at hc
      · cases hc
      · next d hd =>
        have hdn : Below d (.mk label cs) := .child (mem_children_of_step? hd)
        rcases below_of_follow? hc with rfl | hb
        · exact below hdn
        · exact below (hb.trans hdn)

/-! ## Finding nodes -/

/-- A search that does not look inside finds the same child in both. -/
theorem find?_alike {q : Node → Bool} (hq : ∀ {c c'}, Alike r c c' → q c' = q c)
    (h : List.Forall₂ (Alike r) cs cs') : Option.Rel (Alike r) (cs.find? q) (cs'.find? q) := by
  induction h with
  | nil => exact .none
  | @cons c c' cs cs' hc _ ih =>
    rw [List.find?_cons, List.find?_cons, hq hc]
    cases q c with
    | true => exact .some hc
    | false => exact ih

theorem childInField?_alike (h : OpenAlike r n n') (field : String) :
    Option.Rel (Alike r) (n.childInField? field) (n'.childInField? field) :=
  find?_alike (fun hc => by rw [hc.field_eq]) h.children

theorem childOfKind?_alike (h : OpenAlike r n n') (kind : String) :
    Option.Rel (Alike r) (n.childOfKind? kind) (n'.childOfKind? kind) :=
  find?_alike (fun hc => by rw [hc.named_eq, hc.kind_eq]) h.children

theorem target?_alike (h : OpenAlike r n n') (field : Option String) :
    Option.Rel (Alike r) (n.target? field) (n'.target? field) := by
  cases field with
  | some field => exact childInField?_alike h field
  | none =>
    have turned := List.rel_reverse h.children
    exact find?_alike (fun hc => by rw [hc.isSolid_eq, hc.inHeader_eq]) turned

theorem step?_alike (h : OpenAlike r n n') (name : String) :
    Option.Rel (Alike r) (n.step? name) (n'.step? name) := by
  have hfield := childInField?_alike h name
  have hkind := childOfKind?_alike h name
  unfold step?
  generalize n.childInField? name = o, n'.childInField? name = o' at hfield ⊢
  cases hfield with
  | some hc => exact .some hc
  | none => exact hkind

theorem follow?_append (n : Node) (names names' : List String) :
    n.follow? (names ++ names') = (n.follow? names).bind fun c => c.follow? names' := by
  induction names generalizing n with
  | nil => rfl
  | cons name names ih =>
    rw [List.cons_append, follow?, follow?]
    cases n.step? name with
    | none => rfl
    | some c => exact ih c

/-- A path leads to the same node in both, and that node does not differ right inside. -/
theorem follow?_alike {steps : List String} (h : OpenAlike r n n')
    (hbody : r.body? n.kind = some (.path steps)) :
    Option.Rel (OpenAlike r) (n.follow? steps) (n'.follow? steps) := by
  -- The front of the path that has been taken does not lead to a node that differs right inside.
  have onwards : ∀ (rest front : List String) (c c' : Node), front ++ rest = steps →
      n.follow? front = some c → n'.follow? front = some c' → OpenAlike r c c' →
      Option.Rel (OpenAlike r) (c.follow? rest) (c'.follow? rest) := by
    intro rest
    induction rest with
    | nil =>
      intro front c c' _ _ _ hc
      exact .some hc
    | cons name rest ih =>
      intro front c c' hsplit hfront hfront' hc
      have hstep := step?_alike hc name
      rw [follow?, follow?]
      generalize hd : c.step? name = o, hd' : c'.step? name = o' at hstep ⊢
      cases hstep with
      | none => exact .none
      | @some d d' _ =>
        have hnext : n.follow? (front ++ [name]) = some d := by
          simp [follow?_append, hfront, follow?, hd]
        have hnext' : n'.follow? (front ++ [name]) = some d' := by
          simp [follow?_append, hfront', follow?, hd']
        have hsplit' : front ++ [name] ++ rest = steps := by simpa using hsplit
        have hopen := h.of_path hbody ⟨rest, hsplit'⟩ (by simp) hnext hnext'
        exact ih (front ++ [name]) d d' hsplit' hnext hnext' hopen
  exact onwards steps [] n n' rfl rfl rfl h

end Node

end StatementOutline
