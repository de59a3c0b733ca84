import StatementOutline.Parse
import StatementOutline.Proofs.Places

/-!
# The faults of a parse

Faults are looked for only below nodes that are marked as damaged, also below a fault. Where the
marks are passed up to the root, no fault with a mark is missed; and where every mark comes from a
fault, a damaged parse has a fault to show.

* `Node.faults_eq_filter`: skipping what is not damaged loses no fault;
* `Node.exists_fault`: a damaged node is a fault or has one below it;
* `Parse.faults_of_marks`: the faults that a parse reports.
-/

namespace StatementOutline

namespace Node

/-- The node is marked as damaged and is itself a fault. -/
def isReported (n : Node) : Bool :=
  n.isFault && n.damaged

/-- A node with a damaged child is marked as damaged. -/
def MarksRise (n : Node) : Prop :=
  n.All fun m => ∀ c ∈ m.children, c.damaged = true → m.damaged = true

/-- A node that is marked as damaged is a fault or has a damaged child. -/
def MarksFounded (n : Node) : Prop :=
  n.All fun m => m.damaged = true → m.isFault = true ∨ ∃ c ∈ m.children, c.damaged = true

instance (n : Node) : Decidable n.MarksRise :=
  inferInstanceAs (Decidable (n.All _))

instance (n : Node) : Decidable n.MarksFounded :=
  inferInstanceAs (Decidable (n.All _))

variable {n m d : Node}

/-- A damaged node marks all nodes around it. -/
theorem MarksRise.damaged_of_below (h : n.MarksRise) (hd : Below d n) (mark : d.damaged = true) :
    n.damaged = true := by
  induction hd with
  | child hc => exact h.self _ hc mark
  | deeper _ hc ih => exact h.self _ hc (ih (h.of_mem hc))

/-- Nothing is reported inside a node that is not marked. -/
theorem MarksRise.filter_eq_nil (h : n.MarksRise) (unmarked : n.damaged = false) :
    n.preorder.filter isReported = [] := by
  apply List.filter_eq_nil_iff.2
  intro m hm reported
  have mark : m.damaged = true := (Bool.and_eq_true_iff.1 reported).2
  have marked : n.damaged = true := by
    obtain rfl | hm := mem_preorder_iff.1 hm
    · exact mark
    · exact h.damaged_of_below hm mark
  exact absurd marked (by simp [unmarked])

mutual
/-- Looking below damaged nodes only finds the same faults as looking everywhere. -/
theorem faults_eq_filter : ∀ {n : Node}, n.MarksRise → n.faults = n.preorder.filter isReported
  | .mk l cs, h => by
    have inner : faultsAll cs = (preorderAll cs).filter isReported :=
      faultsAll_eq_filter fun c hc => h.of_mem hc
    rw [faults]
    split
    · next mark =>
      have reported : isReported (.mk l cs) = isFault (.mk l cs) := by
        simp [isReported, damaged, label, mark]
      rw [preorder, List.filter_cons, reported, inner]
    · next unmarked => exact (h.filter_eq_nil (eq_false_of_ne_true unmarked)).symm

theorem faultsAll_eq_filter : ∀ {cs : List Node}, (∀ c ∈ cs, c.MarksRise) →
    faultsAll cs = (preorderAll cs).filter isReported
  | [], _ => rfl
  | c :: cs, h => by
    rw [faultsAll, preorderAll, List.filter_append, faults_eq_filter (h c (by simp)),
      faultsAll_eq_filter fun d hd => h d (by simp [hd])]
end

/-- Every mark comes from a fault at or below the node. -/
theorem exists_fault (n : Node) (h : n.MarksFounded) (mark : n.damaged = true) :
    ∃ m ∈ n.preorder, m.isReported = true := by
  obtain fault | ⟨c, hc, below⟩ := h.self mark
  · exact ⟨n, n.mem_preorder_self, Bool.and_eq_true_iff.2 ⟨fault, mark⟩⟩
  · have := sizeOf_child hc
    obtain ⟨m, hm, reported⟩ := exists_fault c (h.of_mem hc) below
    exact ⟨m, mem_preorder_trans hm (Below.child hc).mem_preorder, reported⟩
termination_by sizeOf n

/-! ## Places of faults -/

/-- The places at which a reported fault stands, in order. -/
def faultPlaces (n : Node) : List (List Nat) :=
  n.places.filter fun place => (n.at? place).any isReported

theorem pairwise_faultPlaces (n : Node) : n.faultPlaces.Pairwise (· < ·) :=
  n.pairwise_places.filter _

theorem mem_faultPlaces_iff {place : List Nat} :
    place ∈ n.faultPlaces ↔ ∃ m, n.at? place = some m ∧ m.isReported = true := by
  rw [faultPlaces, List.mem_filter, mem_places_iff]
  constructor
  · rintro ⟨⟨m, hm⟩, reported⟩
    exact ⟨m, hm, by simpa [hm] using reported⟩
  · rintro ⟨m, hm, reported⟩
    exact ⟨⟨m, hm⟩, by simpa [hm] using reported⟩

theorem map_at?_faultPlaces (n : Node) :
    n.faultPlaces.map n.at? = (n.preorder.filter isReported).map some := by
  have reported : ((n.places.map n.at?).filter fun m => m.any isReported) =
      ((n.preorder.map some).filter fun m => m.any isReported) := by
    rw [map_at?_places]
  rw [List.filter_map, List.filter_map] at reported
  exact reported

/-! ## Faults inside faults -/

theorem preorder_eq (n : Node) : n.preorder = n :: preorderAll n.children := by
  cases n
  rfl

theorem preorder_sublist_preorderAll {cs : List Node} (hm : m ∈ cs) :
    m.preorder.Sublist (preorderAll cs) := by
  induction cs with
  | nil => simp at hm
  | cons c cs ih =>
    rw [preorderAll]
    obtain rfl | hm := List.mem_cons.1 hm
    · exact List.sublist_append_left _ _
    · exact (ih hm).trans (List.sublist_append_right _ _)

/-- The nodes of a subtree are listed in the same order as in the tree. -/
theorem Below.preorder_sublist (h : Below d n) : d.preorder.Sublist (preorderAll n.children) := by
  induction h with
  | child hc => exact preorder_sublist_preorderAll hc
  | @deeper c n _ hc ih =>
    have inner : (preorderAll c.children).Sublist c.preorder := by
      rw [preorder_eq]
      exact List.sublist_cons_self _ _
    exact ih.trans (inner.trans (preorder_sublist_preorderAll hc))

/-- A node below another one comes behind it in pre-order. -/
theorem pair_sublist_preorder (hm : m ∈ n.preorder) (hd : Below d m) :
    [m, d].Sublist n.preorder := by
  have pair : [m, d].Sublist m.preorder := by
    rw [m.preorder_eq]
    apply List.Sublist.cons_cons
    exact List.singleton_sublist.2 (hd.preorder_sublist.subset d.mem_preorder_self)
  obtain rfl | hm := mem_preorder_iff.1 hm
  · exact pair
  · rw [n.preorder_eq]
    exact pair.trans (hm.preorder_sublist.cons n)

end Node

namespace Parse

open Node

/-- Where marks are passed up and come from faults, the report of a parse has one entry for each
place at which a marked fault stands, in pre-order. A fault is reported whatever stands around it,
one inside another one behind it, and the report is empty only if the parse is not damaged. -/
theorem faults_of_marks (p : Parse) (rise : p.root.MarksRise) (founded : p.root.MarksFounded) :
    p.root.faults = p.root.preorder.filter isReported ∧
    (∃ places : List (List Nat), places.Pairwise (· < ·) ∧
      (∀ place, place ∈ places ↔ ∃ m, p.root.at? place = some m ∧ m.isReported = true) ∧
      places.map (fun place => (p.root.at? place).map p.report) = p.faults.map some) ∧
    (∀ m ∈ p.root.preorder, m.isReported = true → p.report m ∈ p.faults ∧
      ∀ d, Below d m → d.isReported = true → [p.report m, p.report d].Sublist p.faults) ∧
    (p.faults ≠ [] ↔ p.damaged = true) := by
  have filtered := faults_eq_filter rise
  have reports : p.faults = (p.root.preorder.filter isReported).map p.report := by
    rw [faults, filtered]
  refine ⟨filtered, ?_, ?_, ?_⟩
  · refine ⟨p.root.faultPlaces, pairwise_faultPlaces _, fun _ => mem_faultPlaces_iff, ?_⟩
    have told := congrArg (List.map (Option.map p.report)) p.root.map_at?_faultPlaces
    rw [List.map_map, List.map_map] at told
    rw [reports, List.map_map]
    exact told
  · intro m hm reported
    constructor
    · rw [reports]
      exact List.mem_map_of_mem (List.mem_filter.2 ⟨hm, reported⟩)
    · intro d hd reported'
      have kept := ((pair_sublist_preorder hm hd).filter isReported).map p.report
      rw [reports]
      simpa [reported, reported'] using kept
  · rw [reports, ne_eq, List.map_eq_nil_iff]
    constructor
    · intro some
      cases mark : p.damaged with
      | true => rfl
      | false => exact absurd (rise.filter_eq_nil mark) some
    · intro mark none
      obtain ⟨m, hm, reported⟩ := exists_fault p.root founded mark
      exact List.filter_eq_nil_iff.1 none m hm reported

/-- An error inside an error. -/
def innerError : Node :=
  .mk ⟨"ERROR", none, ⟨2, 3⟩, true, true, true, false, true⟩ [
    .mk ⟨"]", none, ⟨2, 3⟩, false, false, false, false, false⟩ []]

def outerError : Node :=
  .mk ⟨"ERROR", none, ⟨0, 5⟩, true, true, true, false, true⟩ [
    .mk ⟨")", none, ⟨0, 1⟩, false, false, false, false, false⟩ [],
    innerError,
    .mk ⟨")", none, ⟨4, 5⟩, false, false, false, false, false⟩ []]

/-- A semicolon that the parser made up behind a sound call. -/
def madeUp : Node :=
  .mk ⟨";", none, ⟨9, 9⟩, false, false, false, true, true⟩ []

def faultyRoot : Node :=
  .mk ⟨"translation_unit", none, ⟨0, 9⟩, true, false, false, false, true⟩ [
    outerError,
    .mk ⟨"expression_statement", none, ⟨6, 9⟩, true, false, false, false, true⟩ [
      .mk ⟨"call_expression", none, ⟨6, 9⟩, true, false, false, false, false⟩ [],
      madeUp]]

def faulty : Parse :=
  ⟨.c, ") ] ) f()", faultyRoot⟩

theorem faults_of_marks_faulty : faultyRoot.MarksRise ∧ faultyRoot.MarksFounded ∧
    faulty.report madeUp ∈ faulty.faults ∧
    [faulty.report outerError, faulty.report innerError].Sublist faulty.faults ∧
    (faulty.faults ≠ [] ↔ faulty.damaged = true) := by
  have rise : faultyRoot.MarksRise := by decide
  have founded : faultyRoot.MarksFounded := by decide
  obtain ⟨-, -, each, some⟩ := faults_of_marks faulty rise founded
  have outer : Below outerError faultyRoot := .child (.head _)
  have inner : Below innerError outerError := .child (.tail _ (.head _))
  have made : Below madeUp faultyRoot := .deeper (.child (.tail _ (.head _))) (.tail _ (.head _))
  exact ⟨rise, founded, (each madeUp made.mem_preorder rfl).1,
    (each outerError outer.mem_preorder rfl).2 innerError inner rfl, some⟩

example : faultyRoot.faults = [outerError, innerError, madeUp] := rfl

end Parse

end StatementOutline
