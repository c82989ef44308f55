import Mathlib.Order.Defs.LinearOrder
import Mathlib.Data.List.Sort

/-!
Finite sets held as strictly ascending lists, the way an ordered tree set is
iterated. The order is a field of the set, so the list of a set is determined
by its members and the first element is the least one.
-/
namespace OrderedSets
universe u
variable {α : Type u} [LinearOrder α]

/-- Insertion into an ascending list; an element already present is kept once. -/
def insertSorted (x : α) : List α → List α
  | [] => [x]
  | y :: rest =>
    if x < y then x :: y :: rest
    else if x = y then y :: rest
    else y :: insertSorted x rest

theorem mem_insertSorted {x z : α} {xs : List α} :
    z ∈ insertSorted x xs ↔ z = x ∨ z ∈ xs := by
  induction xs with
  | nil => simp [insertSorted]
  | cons y rest ih =>
    rw [insertSorted]
    split
    · simp
    · split
      · rename_i same
        subst same
        simp
      · simp only [List.mem_cons, ih]
        tauto

theorem insertSorted_ascending {x : α} {xs : List α} (ascending : xs.Pairwise (· < ·)) :
    (insertSorted x xs).Pairwise (· < ·) := by
  induction xs with
  | nil => simp [insertSorted]
  | cons y rest ih =>
    obtain ⟨above, tail⟩ := List.pairwise_cons.mp ascending
    rw [insertSorted]
    split
    · rename_i less
      refine List.pairwise_cons.mpr ⟨?_, ascending⟩
      intro z member
      cases List.mem_cons.mp member with
      | inl same => exact same ▸ less
      | inr later => exact lt_trans less (above z later)
    · split
      · exact ascending
      · rename_i notLess different
        refine List.pairwise_cons.mpr ⟨?_, ih tail⟩
        intro z member
        cases mem_insertSorted.mp member with
        | inl same => exact same ▸ lt_of_le_of_ne (not_lt.mp notLess) (Ne.symm different)
        | inr later => exact above z later

structure OrderedSet (α : Type u) [LinearOrder α] where
  toList : List α
  ascending : toList.Pairwise (· < ·)
deriving DecidableEq

namespace OrderedSet

instance : Membership α (OrderedSet α) := ⟨fun s x => x ∈ s.toList⟩

instance {x : α} {s : OrderedSet α} : Decidable (x ∈ s) :=
  inferInstanceAs (Decidable (x ∈ s.toList))

def empty : OrderedSet α := ⟨[], List.Pairwise.nil⟩

def insert (x : α) (s : OrderedSet α) : OrderedSet α :=
  ⟨insertSorted x s.toList, insertSorted_ascending s.ascending⟩

def remove (x : α) (s : OrderedSet α) : OrderedSet α :=
  ⟨s.toList.filter (· ≠ x), s.ascending.filter _⟩

def first (s : OrderedSet α) : Option α := s.toList.head?

def isEmpty (s : OrderedSet α) : Bool := s.toList.isEmpty

def size (s : OrderedSet α) : Nat := s.toList.length

def ofList (xs : List α) : OrderedSet α := xs.foldl (fun s x => s.insert x) empty

theorem mem_toList {x : α} {s : OrderedSet α} : x ∈ s.toList ↔ x ∈ s := Iff.rfl

@[simp] theorem not_mem_empty (x : α) : ¬ x ∈ (empty : OrderedSet α) := List.not_mem_nil

@[simp] theorem mem_insert {x y : α} {s : OrderedSet α} : x ∈ s.insert y ↔ x = y ∨ x ∈ s :=
  mem_insertSorted

@[simp] theorem mem_remove {x y : α} {s : OrderedSet α} : x ∈ s.remove y ↔ x ∈ s ∧ x ≠ y := by
  show x ∈ s.toList.filter (· ≠ y) ↔ _
  simp [List.mem_filter, mem_toList]

theorem mem_foldl_insert {x : α} {xs : List α} {s : OrderedSet α} :
    x ∈ xs.foldl (fun s y => s.insert y) s ↔ x ∈ s ∨ x ∈ xs := by
  induction xs generalizing s with
  | nil => simp
  | cons y rest ih =>
    rw [List.foldl_cons, ih, mem_insert, List.mem_cons]
    tauto

@[simp] theorem mem_ofList {x : α} {xs : List α} : x ∈ ofList xs ↔ x ∈ xs := by
  simp [ofList, mem_foldl_insert]

theorem ext_mem {s t : OrderedSet α} (same : ∀ x, x ∈ s ↔ x ∈ t) : s = t := by
  cases s with
  | mk xs left =>
    cases t with
    | mk ys right =>
      have lists : xs = ys := left.eq_of_mem_iff right (fun {x} => same x)
      subst lists
      rfl

theorem isEmpty_iff {s : OrderedSet α} : s.isEmpty = true ↔ ∀ x, ¬ x ∈ s := by
  rw [isEmpty, List.isEmpty_iff]
  constructor
  · intro none x member
    rw [← mem_toList, none] at member
    exact List.not_mem_nil member
  · intro none
    exact List.eq_nil_iff_forall_not_mem.mpr none

theorem first_mem {s : OrderedSet α} {x : α} (least : s.first = some x) : x ∈ s :=
  List.mem_of_head? least

theorem first_le {s : OrderedSet α} {x y : α} (least : s.first = some x) (member : y ∈ s) :
    x ≤ y := by
  obtain ⟨toList, ascending⟩ := s
  cases toList with
  | nil => exact absurd member List.not_mem_nil
  | cons z rest =>
    obtain rfl : z = x := Option.some.inj least
    rcases List.mem_cons.mp member with same | later
    · exact le_of_eq same.symm
    · exact le_of_lt ((List.pairwise_cons.mp ascending).1 y later)

theorem first_eq_none {s : OrderedSet α} : s.first = none ↔ ∀ x, ¬ x ∈ s := by
  rw [← isEmpty_iff, first, isEmpty, List.head?_eq_none_iff, List.isEmpty_iff]

end OrderedSet
end OrderedSets
