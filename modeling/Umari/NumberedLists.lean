import Mathlib.Data.List.Forall2

/-!
Lists whose entries are known by their number: the entry of a number after one more was
put at the end, after one was replaced and after one was changed, as one statement each.
The same lists as maps from numbers to entries.
-/
namespace NumberedLists
universe u v
variable {α : Type u} {xs : List α} {x a b : α} {i k : Nat}

theorem entry_lt (found : xs[i]? = some a) : i < xs.length :=
  (List.getElem?_eq_some_iff.mp found).1

theorem entry_snoc :
    (xs ++ [x])[i]? = some a ↔ xs[i]? = some a ∨ (i = xs.length ∧ x = a) := by
  induction xs generalizing i with
  | nil => cases i <;> simp
  | cons y rest ih =>
    cases i with
    | zero => simp
    | succ n => simpa using ih

theorem entry_set :
    (xs.set k x)[i]? = some a ↔
      (i = k ∧ k < xs.length ∧ x = a) ∨ (i ≠ k ∧ xs[i]? = some a) := by
  by_cases same : i = k
  · subst same
    by_cases inside : i < xs.length <;> simp [inside]
  · rw [List.getElem?_set_ne (Ne.symm same)]
    simp [same]

theorem entry_modify {f : α → α} :
    (xs.modify k f)[i]? = some b ↔
      ∃ a, xs[i]? = some a ∧ b = if k = i then f a else a := by
  rw [List.getElem?_modify]
  cases xs[i]? with
  | none => simp
  | some a => simp [eq_comm]

theorem forall₂_entry {β : Type u} {R : α → β → Prop} {ys : List β} {y : β}
    (related : List.Forall₂ R xs ys) (left : xs[i]? = some x) (right : ys[i]? = some y) :
    R x y := by
  induction related generalizing i with
  | nil => exact absurd left (by simp)
  | cons here _ ih =>
    cases i with
    | zero =>
      obtain rfl := Option.some.inj left
      obtain rfl := Option.some.inj right
      exact here
    | succ n => exact ih left right

section numbering
variable {β : Type u}

def numbered : Nat → List α → List (Nat × α)
  | _, [] => []
  | n, x :: rest => (n, x) :: numbered (n + 1) rest

theorem le_of_numbered {n : Nat} {xs : List α} {entry : Nat × α}
    (member : entry ∈ numbered n xs) : n ≤ entry.1 := by
  induction xs generalizing n with
  | nil => exact absurd member List.not_mem_nil
  | cons x rest ih =>
    rcases List.mem_cons.mp member with rfl | later
    · exact Nat.le_refl _
    · have above := ih later
      omega

theorem numbered_keys (n : Nat) (xs : List α) : ((numbered n xs).map Prod.fst).Nodup := by
  induction xs generalizing n with
  | nil => exact List.nodup_nil
  | cons x rest ih =>
    apply List.nodup_cons.mpr
    constructor
    · intro again
      obtain ⟨entry, member, same⟩ := List.mem_map.mp again
      have above := le_of_numbered member
      omega
    · exact ih (n + 1)

theorem numbered_map (f : α → β) (n : Nat) (xs : List α) :
    numbered n (xs.map f) = (numbered n xs).map fun entry => (entry.1, f entry.2) := by
  induction xs generalizing n with
  | nil => rfl
  | cons x rest ih => rw [List.map_cons, numbered, ih, numbered, List.map_cons]

def AtSameNumber (R : α → β → Prop) (x : Nat × α) (z : Nat × β) : Prop :=
  z.1 = x.1 ∧ R x.2 z.2

theorem forall₂_numbered {R : α → β → Prop} {n : Nat} {xs : List α} {zs : List (Nat × β)} :
    List.Forall₂ (AtSameNumber R) (numbered n xs) zs ↔
      ∃ ys, zs = numbered n ys ∧ List.Forall₂ R xs ys := by
  induction xs generalizing n zs with
  | nil =>
    constructor
    · intro none
      cases none
      exact ⟨[], rfl, List.Forall₂.nil⟩
    · rintro ⟨ys, rfl, none⟩
      cases none
      exact List.Forall₂.nil
  | cons x rest ih =>
    rw [numbered]
    constructor
    · intro related
      obtain ⟨⟨k, y⟩, tail, ⟨rfl, here⟩, others, rfl⟩ := List.forall₂_cons_left_iff.mp related
      obtain ⟨ys, rfl, later⟩ := ih.mp others
      exact ⟨y :: ys, rfl, List.Forall₂.cons here later⟩
    · rintro ⟨ys, rfl, related⟩
      obtain ⟨y, tail, here, others, rfl⟩ := List.forall₂_cons_left_iff.mp related
      exact List.Forall₂.cons ⟨rfl, here⟩ (ih.mpr ⟨tail, rfl, others⟩)

theorem numbered_rest {n : Nat} {x : α} {rest : List α} :
    (numbered n (x :: rest)).filter (fun entry => entry.1 ≠ n) = numbered (n + 1) rest := by
  rw [numbered, List.filter_cons_of_neg (by simp)]
  apply List.filter_eq_self.mpr
  intro entry member
  have above := le_of_numbered member
  simpa using (by omega : entry.1 ≠ n)

theorem lookup_of_mem {K : Type v} [BEq K] [LawfulBEq K] {xs : List (K × α)}
    (distinct : (xs.map Prod.fst).Nodup) {n : K} {x : α} (member : (n, x) ∈ xs) :
    xs.lookup n = some x := by
  induction xs with
  | nil => exact absurd member List.not_mem_nil
  | cons entry rest ih =>
    obtain ⟨k, y⟩ := entry
    obtain ⟨fresh, tail⟩ := List.nodup_cons.mp distinct
    rcases List.mem_cons.mp member with here | later
    · obtain ⟨rfl, rfl⟩ := Prod.mk.inj here
      exact List.lookup_cons_self
    · have differs : (n == k) = false := by
        apply beq_eq_false_iff_ne.mpr
        rintro rfl
        exact fresh (List.mem_map.mpr ⟨(n, x), later, rfl⟩)
      rw [List.lookup_cons, differs]
      exact ih tail later

end numbering

theorem filter_length_le_one {keep : α → Bool}
    (once : ∀ (i j : Nat) (a b : α), xs[i]? = some a → xs[j]? = some b → keep a = true →
      keep b = true → i = j) : (xs.filter keep).length ≤ 1 := by
  induction xs with
  | nil => exact Nat.zero_le 1
  | cons x rest ih =>
    cases kept : keep x with
    | false =>
      have later := ih fun i j a b first second keepA keepB => by
        have same := once (i + 1) (j + 1) a b first second keepA keepB
        omega
      simpa [List.filter_cons, kept] using later
    | true =>
      have none : rest.filter keep = [] := by
        apply List.filter_eq_nil_iff.mpr
        intro other member also
        obtain ⟨i, found⟩ := List.mem_iff_getElem?.mp member
        have same := once 0 (i + 1) x other rfl found kept also
        omega
      simp [kept, none]

end NumberedLists
