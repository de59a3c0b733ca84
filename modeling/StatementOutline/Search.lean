/-!
# Partition points

A test that holds on a front part of an array and nowhere behind it has a partition point: the
number of elements in front. It is found by halving. `partitionPoint_spec` says that every element
before it passes the test and no element from it on does; `partitionPoint_of_split` says it of an
array that is given in two such parts.
-/

namespace StatementOutline

/-- Finds the partition point between two bounds. -/
def partitionBetween (p : α → Bool) (xs : Array α) (lo hi : Nat) (h : hi ≤ xs.size) : Nat :=
  if hlt : lo < hi then
    let mid := (lo + hi) / 2
    have : mid < xs.size := by omega
    if p xs[mid] then partitionBetween p xs (mid + 1) hi h
    else partitionBetween p xs lo mid (by omega)
  else lo
termination_by hi - lo

/-- The number of elements in front of the first one that fails a test. -/
def partitionPoint (p : α → Bool) (xs : Array α) : Nat :=
  partitionBetween p xs 0 xs.size (Nat.le_refl _)

/-- The test holds of an element only if it holds of every element before it. -/
def HoldsInFront (p : α → Bool) (xs : Array α) : Prop :=
  ∀ i j, (hj : j < xs.size) → (hij : i < j) → p xs[j] = true → p xs[i] = true

theorem partitionBetween_spec {p : α → Bool} {xs : Array α} (hp : HoldsInFront p xs) {lo hi : Nat}
    (h : hi ≤ xs.size) (hlo : lo ≤ hi)
    (front : ∀ i, (hi' : i < xs.size) → i < lo → p xs[i] = true)
    (back : ∀ i, (hi' : i < xs.size) → hi ≤ i → p xs[i] = false) :
    partitionBetween p xs lo hi h ≤ xs.size ∧
      ∀ i, (hi' : i < xs.size) → (p xs[i] = true ↔ i < partitionBetween p xs lo hi h) := by
  fun_induction partitionBetween p xs lo hi h with
  | case1 lo hi h hlt mid hmid hpm ih =>
    refine ih (by omega) (fun i hi' hlt' => ?_) back
    rcases Nat.lt_or_ge i mid with hl | hg
    · exact hp i mid hmid hl hpm
    · have : i = mid := by omega
      subst this; exact hpm
  | case2 lo hi h hlt mid hmid hpm ih =>
    refine ih (by omega) front (fun i hi' hge => ?_)
    rcases Nat.lt_or_ge mid i with hl | hg
    · cases hb : p xs[i] with
      | false => rfl
      | true => exact absurd (hp mid i hi' hl hb) hpm
    · have : i = mid := by omega
      subst this; simpa using hpm
  | case3 lo hi h hlt =>
    refine ⟨by omega, fun i hi' => ⟨fun ht => ?_, fun hl => front i hi' hl⟩⟩
    rcases Nat.lt_or_ge i lo with hl | hg
    · exact hl
    · rw [back i hi' (by omega)] at ht
      exact absurd ht (by simp)

/-- An element passes the test exactly when it lies before the partition point. -/
theorem partitionPoint_spec {p : α → Bool} {xs : Array α} (hp : HoldsInFront p xs) :
    partitionPoint p xs ≤ xs.size ∧
      ∀ i, (hi : i < xs.size) → (p xs[i] = true ↔ i < partitionPoint p xs) :=
  partitionBetween_spec hp (Nat.le_refl _) (Nat.zero_le _) (fun _ _ h => absurd h (by omega))
    (fun i hi' hge => absurd hi' (by omega))

/-- Where the array falls into elements that pass the test and elements that fail it, the partition
point lies between the two. -/
theorem partitionPoint_of_split {p : α → Bool} {xs : Array α} {front back : List α}
    (h : xs.toList = front ++ back) (hfront : ∀ x ∈ front, p x = true)
    (hback : ∀ x ∈ back, p x = false) : partitionPoint p xs = front.length := by
  have passes : ∀ i, (hi : i < xs.size) → (p xs[i] = true ↔ i < front.length) := by
    intro i hi
    have hget : (front ++ back)[i]? = some xs[i] := by
      rw [← h, Array.getElem?_toList, Array.getElem?_eq_getElem hi]
    by_cases hlt : i < front.length
    · rw [List.getElem?_append_left hlt] at hget
      simp [hlt, hfront _ (List.mem_of_getElem? hget)]
    · rw [List.getElem?_append_right (Nat.not_lt.1 hlt)] at hget
      simp [hlt, hback _ (List.mem_of_getElem? hget)]
  have ordered : HoldsInFront p xs := by
    intro i j hj hij hp
    rw [passes j hj] at hp
    rw [passes i (Nat.lt_trans hij hj)]
    exact Nat.lt_trans hij hp
  obtain ⟨hsize, hpoint⟩ := partitionPoint_spec ordered
  have hlength : front.length ≤ xs.size := by
    rw [← Array.length_toList, h, List.length_append]
    exact Nat.le_add_right _ _
  obtain hlt | heq | hgt := Nat.lt_trichotomy (partitionPoint p xs) front.length
  · have hi := Nat.lt_of_lt_of_le hlt hlength
    exact absurd ((hpoint _ hi).1 ((passes _ hi).2 hlt)) (Nat.lt_irrefl _)
  · exact heq
  · have hi := Nat.lt_of_lt_of_le hgt hsize
    exact absurd ((passes _ hi).1 ((hpoint _ hi).2 hgt)) (Nat.lt_irrefl _)

end StatementOutline
