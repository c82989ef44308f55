import Mathlib.Data.List.Find
import Mathlib.Data.List.Pairwise

/-!
Tables of a relational store. The primary key and the unique indexes of a table, partial
ones included, say which pairs of rows may not stand in it together; a table never holds
such a pair. The order of the rows means nothing. Statements of a transaction may fail,
and then nothing of the transaction is kept.
-/
namespace UniqueTables
universe u v w

structure Table {R : Type u} (clash : R → R → Prop) where
  rows : List R
  unique : rows.Pairwise fun a b => ¬ clash a b

namespace Table
variable {R : Type u} {clash : R → R → Prop}

instance : Membership R (Table clash) := ⟨fun t r => r ∈ t.rows⟩

def empty : Table clash := ⟨[], List.Pairwise.nil⟩

def find (t : Table clash) (p : R → Bool) : Option R := t.rows.find? p

def count (t : Table clash) (p : R → Bool) : Nat := t.rows.countP p

def delete (t : Table clash) (p : R → Bool) : Table clash :=
  ⟨t.rows.filter fun r => !p r, t.unique.filter _⟩

theorem insert_unique {t : Table clash} {r : R} (free : ∀ old ∈ t.rows, ¬ clash old r) :
    (t.rows ++ [r]).Pairwise fun a b => ¬ clash a b := by
  apply List.pairwise_append.mpr
  refine ⟨t.unique, List.pairwise_singleton _ _, ?_⟩
  intro old member new last
  rw [List.mem_singleton.mp last]
  exact free old member

section statements
variable [DecidableRel clash]

/-- `INSERT`; `none` is a violated constraint. -/
def insert (t : Table clash) (r : R) : Option (Table clash) :=
  if free : ∀ old ∈ t.rows, ¬ clash old r then some ⟨t.rows ++ [r], insert_unique free⟩ else none

/-- `INSERT OR REPLACE`: what stands in the way of the row is removed. -/
def replace (t : Table clash) (r : R) : Table clash where
  rows := (t.rows.filter fun old => decide (¬ clash old r)) ++ [r]
  unique := by
    apply List.pairwise_append.mpr
    refine ⟨t.unique.filter _, List.pairwise_singleton _ _, ?_⟩
    intro old member new last
    rw [List.mem_singleton.mp last]
    simpa using (List.mem_filter.mp member).2

/-- `UPDATE`; `none` is a violated constraint. -/
def update (t : Table clash) (p : R → Bool) (f : R → R) : Option (Table clash) :=
  if free : (t.rows.map fun r => if p r then f r else r).Pairwise fun a b => ¬ clash a b then
    some ⟨t.rows.map fun r => if p r then f r else r, free⟩
  else none

end statements

section laws
variable {t u : Table clash} {p : R → Bool} {r x : R}

theorem not_mem_empty : x ∉ (empty : Table clash) := List.not_mem_nil

theorem eq_of_clash [symm : Std.Symm clash] {a b : R} (left : a ∈ t) (right : b ∈ t)
    (clashes : clash a b) : a = b := by
  have apart : Std.Symm fun a b => ¬ clash a b := ⟨fun _ _ free other => free (symm.symm _ _ other)⟩
  by_contra different
  exact t.unique.forall left right different clashes

theorem mem_delete : x ∈ t.delete p ↔ x ∈ t ∧ p x = false := by
  show x ∈ (t.rows.filter fun r => !p r) ↔ _
  rw [List.mem_filter, Bool.not_eq_true']
  exact Iff.rfl

theorem count_pos : 0 < t.count p ↔ ∃ x ∈ t, p x = true := List.countP_pos_iff

theorem find_some (found : t.find p = some x) : x ∈ t ∧ p x = true :=
  ⟨List.mem_of_find?_eq_some found, List.find?_some found⟩

theorem find_none : t.find p = none ↔ ∀ x ∈ t, p x = false := by
  unfold find
  rw [List.find?_eq_none]
  simp only [Bool.not_eq_true]
  exact Iff.rfl

theorem find_mapped {f : R → R} (rows : u.rows = t.rows.map f)
    (same : ∀ x ∈ t, p (f x) = p x) (kept : ∀ x ∈ t, p x = true → f x = x) :
    u.find p = t.find p := by
  unfold find
  rw [rows]
  replace same : ∀ x ∈ t.rows, p (f x) = p x := same
  replace kept : ∀ x ∈ t.rows, p x = true → f x = x := kept
  generalize t.rows = list at same kept
  induction list with
  | nil => rfl
  | cons x rest ih =>
    have here := same x List.mem_cons_self
    have later := ih (fun y member => same y (List.mem_cons_of_mem _ member))
      (fun y member => kept y (List.mem_cons_of_mem _ member))
    rw [List.map_cons]
    by_cases passes : p x = true
    · rw [List.find?_cons_of_pos passes, List.find?_cons_of_pos (here.trans passes),
        kept x List.mem_cons_self passes]
    · rw [List.find?_cons_of_neg passes, List.find?_cons_of_neg (by rwa [here]), later]

theorem find_iff [Std.Symm clash] (single : ∀ a b, p a = true → p b = true → clash a b) :
    t.find p = some x ↔ x ∈ t ∧ p x = true := by
  constructor
  · exact find_some
  · intro passes
    cases found : t.find p with
    | none =>
      have refused := find_none.mp found x passes.1
      rw [passes.2] at refused
      exact absurd refused (by simp)
    | some other =>
      obtain ⟨member, also⟩ := find_some found
      rw [eq_of_clash member passes.1 (single other x also passes.2)]

variable [DecidableRel clash]

theorem insert_rows (inserted : t.insert r = some u) :
    u.rows = t.rows ++ [r] ∧ ∀ old ∈ t, ¬ clash old r := by
  unfold insert at inserted
  by_cases free : ∀ old ∈ t.rows, ¬ clash old r
  · rw [dif_pos free] at inserted
    cases inserted
    exact ⟨rfl, free⟩
  · rw [dif_neg free] at inserted
    exact absurd inserted (by simp)

theorem insert_some (inserted : t.insert r = some u) :
    (∀ x, x ∈ u ↔ x ∈ t ∨ x = r) ∧ ∀ old ∈ t, ¬ clash old r := by
  obtain ⟨rows, free⟩ := insert_rows inserted
  refine ⟨?_, free⟩
  intro x
  show x ∈ u.rows ↔ _
  rw [rows, List.mem_append, List.mem_singleton]
  exact Iff.rfl

theorem insert_free (free : ∀ old ∈ t, ¬ clash old r) : ∃ u, t.insert r = some u :=
  ⟨_, dif_pos free⟩

theorem mem_replace : x ∈ t.replace r ↔ (x ∈ t ∧ ¬ clash x r) ∨ x = r := by
  show x ∈ (t.rows.filter fun old => decide (¬ clash old r)) ++ [r] ↔ _
  rw [List.mem_append, List.mem_singleton, List.mem_filter, decide_eq_true_iff]
  exact Iff.rfl

theorem mem_replace_present [Std.Symm clash] (present : r ∈ t) : x ∈ t.replace r ↔ x ∈ t := by
  rw [mem_replace]
  constructor
  · intro either
    rcases either with kept | rfl
    · exact kept.1
    · exact present
  · intro member
    by_cases clashes : clash x r
    · exact Or.inr (eq_of_clash member present clashes)
    · exact Or.inl ⟨member, clashes⟩

theorem update_calm {f : R → R} (calm : ∀ a b,
      clash (if p a then f a else a) (if p b then f b else b) → clash a b) :
    ∃ u, t.update p f = some u ∧ u.rows = t.rows.map fun r => if p r then f r else r := by
  have free : (t.rows.map fun r => if p r then f r else r).Pairwise fun a b => ¬ clash a b :=
    List.pairwise_map.mpr (t.unique.imp fun free clashes => free (calm _ _ clashes))
  exact ⟨_, dif_pos free, rfl⟩

end laws
end Table

section transactions
variable {S : Type u} {E : Type v} {A : Type w}

/-- A statement whose success the environment decides. -/
def attempt (fails : Bool) (err : E) (result : Except E A) : Except E A :=
  if fails then .error err else result

/-- A transaction that fails leaves the store as it was. -/
def transaction (s : S) (body : Except E (S × A)) : S × Except E A :=
  match body with
  | .ok (t, a) => (t, .ok a)
  | .error err => (s, .error err)

theorem attempt_ok {fails : Bool} {err : E} {result : Except E A} {a : A} :
    attempt fails err result = .ok a ↔ fails = false ∧ result = .ok a := by
  cases fails with
  | false => simp [attempt]
  | true => simp [attempt]

end transactions
end UniqueTables
