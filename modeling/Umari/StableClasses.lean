import Mathlib.Data.List.Basic

/-!
The elements of a list class by class, in each class as they stood: what a stable sort by a
few classes makes of it.
-/
namespace StableClasses
universe u
variable {α : Type u} {c : α → Nat} {k : Nat} {l : List α}

def byClass (c : α → Nat) : Nat → List α → List α
  | 0, _ => []
  | k + 1, l => byClass c k l ++ l.filter fun x => c x == k

def InClasses (c : α → Nat) (l : List α) : Prop := l.Pairwise fun x y => c x ≤ c y

theorem mem_byClass {x : α} (member : x ∈ byClass c k l) : x ∈ l ∧ c x < k := by
  induction k with
  | zero => exact absurd member List.not_mem_nil
  | succ k ih =>
    rcases List.mem_append.mp member with earlier | last
    · obtain ⟨listed, below⟩ := ih earlier
      exact ⟨listed, Nat.lt_succ_of_lt below⟩
    · obtain ⟨listed, same⟩ := List.mem_filter.mp last
      rw [eq_of_beq same]
      exact ⟨listed, Nat.lt_succ_self k⟩

theorem byClass_inClasses (c : α → Nat) (k : Nat) (l : List α) : InClasses c (byClass c k l) := by
  induction k with
  | zero => exact List.Pairwise.nil
  | succ k ih =>
    apply List.pairwise_append.mpr
    refine ⟨ih, ?_, ?_⟩
    · apply List.pairwise_of_forall_mem_list
      intro x left y right
      have same : c x = c y :=
        (eq_of_beq (List.mem_filter.mp left).2).trans (eq_of_beq (List.mem_filter.mp right).2).symm
      exact Nat.le_of_eq same
    · intro x left y right
      rw [eq_of_beq (List.mem_filter.mp right).2]
      exact Nat.le_of_lt (mem_byClass left).2

theorem split_last (ordered : InClasses c l) (below : ∀ x ∈ l, c x < k + 1) :
    (l.filter fun x => decide (c x < k)) ++ (l.filter fun x => c x == k) = l := by
  induction l with
  | nil => rfl
  | cons x rest ih =>
    obtain ⟨above, tail⟩ := List.pairwise_cons.mp ordered
    have later := fun y member => below y (List.mem_cons_of_mem x member)
    have bound := below x List.mem_cons_self
    by_cases lower : c x < k
    · have other : (c x == k) = false := beq_eq_false_iff_ne.mpr (Nat.ne_of_lt lower)
      rw [List.filter_cons_of_pos (by simpa using lower), List.filter_cons_of_neg (by simp [other]),
        List.cons_append, ih tail later]
    · have last : c x = k := by omega
      have all : ∀ y ∈ rest, c y = k := by
        intro y member
        have low := above y member
        have high := later y member
        omega
      have none : (rest.filter fun y => decide (c y < k)) = [] := by
        apply List.filter_eq_nil_iff.mpr
        intro y member
        simp [all y member]
      have whole : (rest.filter fun y => c y == k) = rest := by
        apply List.filter_eq_self.mpr
        intro y member
        simp [all y member]
      rw [List.filter_cons_of_neg (by simpa using lower), List.filter_cons_of_pos (by simp [last]),
        none, whole, List.nil_append]

theorem byClass_filter {k j : Nat} (within : k ≤ j) :
    byClass c k (l.filter fun x => decide (c x < j)) = byClass c k l := by
  induction k with
  | zero => rfl
  | succ k ih =>
    rw [byClass, ih (Nat.le_of_succ_le within), List.filter_filter, byClass]
    congr 1
    apply List.filter_congr
    intro x _
    by_cases same : c x = k
    · have bound : k < j := within
      simp [same, bound]
    · simp [same]

theorem byClass_eq_iff (below : ∀ x ∈ l, c x < k) : byClass c k l = l ↔ InClasses c l := by
  constructor
  · intro same
    rw [← same]
    exact byClass_inClasses c k l
  · intro ordered
    induction k generalizing l with
    | zero =>
      cases l with
      | nil => rfl
      | cons x rest => exact absurd (below x List.mem_cons_self) (Nat.not_lt_zero _)
    | succ k ih =>
      have lower := ih (l := l.filter fun x => decide (c x < k))
        (fun x member => by simpa using (List.mem_filter.mp member).2) (ordered.filter _)
      rw [byClass_filter (Nat.le_refl k)] at lower
      rw [byClass, lower, split_last ordered below]

theorem byClass_perm (below : ∀ x ∈ l, c x < k) : (byClass c k l).Perm l := by
  induction k generalizing l with
  | zero =>
    cases l with
    | nil => exact List.Perm.nil
    | cons x rest => exact absurd (below x List.mem_cons_self) (Nat.not_lt_zero _)
  | succ k ih =>
    have lower := ih (l := l.filter fun x => decide (c x < k))
      (fun x member => by simpa using (List.mem_filter.mp member).2)
    rw [byClass_filter (Nat.le_refl k)] at lower
    have last : (l.filter fun x => c x == k) = l.filter fun x => !decide (c x < k) := by
      apply List.filter_congr
      intro x member
      have bound := below x member
      by_cases same : c x = k
      · simp [same]
      · have lower : c x < k := by omega
        simp [same, lower]
    rw [byClass, last]
    exact (lower.append_right _).trans (List.filter_append_perm _ l)

theorem mergeSort_byClass {le : α → α → Bool} (compares : ∀ x y, le x y = decide (c x ≤ c y))
    (below : ∀ x ∈ l, c x < k) : l.mergeSort le = byClass c k l := by
  have trans : ∀ x y z, le x y = true → le y z = true → le x z = true := by
    intro x y z first second
    simp only [compares, decide_eq_true_eq] at first second ⊢
    exact Nat.le_trans first second
  have total : ∀ x y, (le x y || le y x) = true := by
    intro x y
    simp only [compares, Bool.or_eq_true, decide_eq_true_eq]
    exact Nat.le_total _ _
  have sorted : InClasses c (l.mergeSort le) := by
    have ordered := List.pairwise_mergeSort trans total l
    exact ordered.imp fun {x y} here => by simpa [compares] using here
  -- Within a class all elements are alike, so that they stay as they stood.
  have kept : ∀ n, (l.mergeSort le).filter (fun x => c x == n) = l.filter fun x => c x == n := by
    intro n
    have alike : (l.filter fun x => c x == n).Pairwise fun x y => le x y = true := by
      apply List.pairwise_of_forall_mem_list
      intro x left y right
      rw [compares, eq_of_beq (List.mem_filter.mp left).2, eq_of_beq (List.mem_filter.mp right).2]
      exact decide_eq_true (Nat.le_refl n)
    have within := (List.sublist_mergeSort trans total alike List.filter_sublist).filter fun x =>
      c x == n
    rw [List.filter_filter] at within
    simp only [Bool.and_self] at within
    have length := ((List.mergeSort_perm l le).filter fun x => c x == n).length_eq
    exact (within.eq_of_length length.symm).symm
  have same : ∀ n, byClass c n (l.mergeSort le) = byClass c n l := by
    intro n
    induction n with
    | zero => rfl
    | succ n ih => rw [byClass, byClass, ih, kept]
  rw [← same, (byClass_eq_iff _).mpr sorted]
  intro x member
  exact below x (List.mem_mergeSort.mp member)

end StableClasses
