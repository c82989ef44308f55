import Mathlib.Data.List.Basic
import Mathlib.Tactic.Tauto

/-!
Values grouped under keys: a map from keys to collections, as a list in the order in
which the keys first came. The collection type and how it takes one more value are
parameters; all that is asked of them is what the collection then holds.
-/
namespace Groupings
universe u v w x y
variable {K : Type u} {T : Type v} {C : Type w} [DecidableEq K] [Membership T C]

abbrev Grouping (K : Type u) (C : Type w) := List (K × C)

def put (add : T → C → C) (empty : C) (key : K) (value : T) : Grouping K C → Grouping K C
  | [] => [(key, add value empty)]
  | (other, held) :: rest =>
    if other = key then (other, add value held) :: rest
    else (other, held) :: put add empty key value rest

def Holds (grouped : Grouping K C) (key : K) (value : T) : Prop :=
  ∃ held, (key, held) ∈ grouped ∧ value ∈ held

def Filled (T : Type v) [Membership T C] (grouped : Grouping K C) : Prop :=
  ∀ group ∈ grouped, ∃ value : T, value ∈ group.2

omit [DecidableEq K] in
theorem not_holds_nil {key : K} {value : T} : ¬ Holds ([] : Grouping K C) key value := by
  rintro ⟨held, member, _⟩
  exact absurd member List.not_mem_nil

omit [DecidableEq K] in
theorem holds_cons {other key : K} {held : C} {rest : Grouping K C} {value : T} :
    Holds ((other, held) :: rest) key value ↔
      (other = key ∧ value ∈ held) ∨ Holds rest key value := by
  constructor
  · rintro ⟨found, member, inside⟩
    rcases List.mem_cons.mp member with here | later
    · obtain ⟨rfl, rfl⟩ := Prod.mk.inj here
      exact Or.inl ⟨rfl, inside⟩
    · exact Or.inr ⟨found, later, inside⟩
  · rintro (⟨rfl, inside⟩ | ⟨found, member, inside⟩)
    · exact ⟨held, List.mem_cons_self, inside⟩
    · exact ⟨found, List.mem_cons_of_mem _ member, inside⟩

structure Adds (add : T → C → C) (empty : C) : Prop where
  added : ∀ held value other, other ∈ add value held ↔ other = value ∨ other ∈ held
  vacant : ∀ value : T, value ∉ empty

variable {add : T → C → C} {empty : C}

theorem holds_put (adds : Adds add empty) {grouped : Grouping K C} {key key' : K}
    {value value' : T} :
    Holds (put add empty key value grouped) key' value' ↔
      (key = key' ∧ value' = value) ∨ Holds grouped key' value' := by
  induction grouped with
  | nil =>
    rw [put, holds_cons, adds.added]
    have none := adds.vacant value'
    tauto
  | cons group rest ih =>
    obtain ⟨other, held⟩ := group
    rw [put]
    by_cases same : other = key
    · rw [if_pos same, holds_cons, holds_cons, adds.added, same]
      tauto
    · rw [if_neg same, holds_cons, holds_cons, ih]
      tauto

theorem filled_put (adds : Adds add empty) {grouped : Grouping K C} {key : K} {value : T}
    (filled : Filled T grouped) : Filled T (put add empty key value grouped) := by
  induction grouped with
  | nil =>
    intro group member
    obtain rfl : group = (key, add value empty) := List.mem_singleton.mp member
    exact ⟨value, (adds.added _ _ _).mpr (Or.inl rfl)⟩
  | cons group rest ih =>
    obtain ⟨other, held⟩ := group
    have tail : Filled T rest := fun group member =>
      filled group (List.mem_cons_of_mem _ member)
    rw [put]
    by_cases same : other = key
    · rw [if_pos same]
      intro group member
      rcases List.mem_cons.mp member with rfl | later
      · exact ⟨value, (adds.added _ _ _).mpr (Or.inl rfl)⟩
      · exact tail group later
    · rw [if_neg same]
      intro group member
      rcases List.mem_cons.mp member with rfl | later
      · exact filled _ List.mem_cons_self
      · exact ih tail group later

/-- A way to put one more value under a key that keeps what is held, and makes no empty
    group. -/
structure Puts (step : K → T → Grouping K C → Grouping K C) : Prop where
  holds : ∀ grouped key value key' value', Holds (step key value grouped) key' value' ↔
    (key = key' ∧ value' = value) ∨ Holds grouped key' value'
  filled : ∀ grouped key value, Filled T grouped → Filled T (step key value grouped)

theorem put_puts (adds : Adds add empty) :
    Puts (put add empty : K → T → Grouping K C → Grouping K C) where
  holds := fun _ _ _ _ _ => holds_put adds
  filled := fun _ _ _ => filled_put adds

section inKeyOrder
variable {before : K → K → Bool}

/-- One more value under a key, where the groups are kept in an order of their keys. -/
def putOrdered (before : K → K → Bool) (add : T → C → C) (empty : C) (key : K) (value : T) :
    Grouping K C → Grouping K C
  | [] => [(key, add value empty)]
  | (other, held) :: rest =>
    if other = key then (other, add value held) :: rest
    else if before key other then (key, add value empty) :: (other, held) :: rest
    else (other, held) :: putOrdered before add empty key value rest

theorem holds_putOrdered (adds : Adds add empty) {grouped : Grouping K C} {key key' : K}
    {value value' : T} :
    Holds (putOrdered before add empty key value grouped) key' value' ↔
      (key = key' ∧ value' = value) ∨ Holds grouped key' value' := by
  have none := adds.vacant value'
  induction grouped with
  | nil =>
    rw [putOrdered, holds_cons, adds.added]
    tauto
  | cons group rest ih =>
    obtain ⟨other, held⟩ := group
    rw [putOrdered]
    by_cases same : other = key
    · rw [if_pos same, holds_cons, holds_cons, adds.added, same]
      tauto
    · rw [if_neg same]
      by_cases here : before key other = true
      · rw [if_pos here, holds_cons, adds.added]
        tauto
      · rw [if_neg here, holds_cons, holds_cons]
        tauto

theorem filled_putOrdered (adds : Adds add empty) {grouped : Grouping K C} {key : K} {value : T}
    (filled : Filled T grouped) : Filled T (putOrdered before add empty key value grouped) := by
  have new : ∀ held : C, ∃ other : T, other ∈ add value held :=
    fun held => ⟨value, (adds.added _ _ _).mpr (Or.inl rfl)⟩
  induction grouped with
  | nil => exact List.forall_mem_cons.mpr ⟨new empty, fun group => nofun⟩
  | cons group rest ih =>
    obtain ⟨other, held⟩ := group
    obtain ⟨first, tail⟩ := List.forall_mem_cons.mp filled
    rw [putOrdered]
    by_cases same : other = key
    · rw [if_pos same]
      exact List.forall_mem_cons.mpr ⟨new held, tail⟩
    · rw [if_neg same]
      by_cases here : before key other = true
      · rw [if_pos here]
        exact List.forall_mem_cons.mpr ⟨new empty, filled⟩
      · rw [if_neg here]
        exact List.forall_mem_cons.mpr ⟨first, ih tail⟩

theorem putOrdered_puts (adds : Adds add empty) :
    Puts (putOrdered before add empty : K → T → Grouping K C → Grouping K C) where
  holds := fun _ _ _ _ _ => holds_putOrdered adds
  filled := fun _ _ _ => filled_putOrdered adds

end inKeyOrder

variable {S : Type x} {R : Type y} {step : K → T → Grouping K C → Grouping K C}

omit [DecidableEq K] in
theorem holds_foldl (puts : Puts step) {key : S → K} {value : S → T} {xs : List S}
    {grouped : Grouping K C} {key' : K} {value' : T} :
    Holds (xs.foldl (fun grouped x => step (key x) (value x) grouped) grouped) key' value' ↔
      Holds grouped key' value' ∨ ∃ x ∈ xs, key x = key' ∧ value x = value' := by
  induction xs generalizing grouped with
  | nil => simp
  | cons x rest ih =>
    rw [List.foldl_cons, ih, puts.holds, List.exists_mem_cons_iff, eq_comm (a := value')]
    tauto

omit [DecidableEq K] in
theorem filled_foldl (puts : Puts step) {key : S → K} {value : S → T} {xs : List S}
    {grouped : Grouping K C} (filled : Filled T grouped) :
    Filled T (xs.foldl (fun grouped x => step (key x) (value x) grouped) grouped) := by
  induction xs generalizing grouped with
  | nil => exact filled
  | cons x rest ih => exact ih (puts.filled _ _ _ filled)

/-- All values of a list, each under the key that is made of it. -/
def putAll (add : T → C → C) (empty : C) (key : S → K) (value : S → T) (xs : List S)
    (grouped : Grouping K C) : Grouping K C :=
  xs.foldl (fun grouped x => put add empty (key x) (value x) grouped) grouped

theorem holds_putAll (adds : Adds add empty) {key : S → K} {value : S → T} {xs : List S}
    {grouped : Grouping K C} {key' : K} {value' : T} :
    Holds (putAll add empty key value xs grouped) key' value' ↔
      Holds grouped key' value' ∨ ∃ x ∈ xs, key x = key' ∧ value x = value' :=
  holds_foldl (put_puts adds)

theorem filled_putAll (adds : Adds add empty) {key : S → K} {value : S → T} {xs : List S}
    {grouped : Grouping K C} (filled : Filled T grouped) :
    Filled T (putAll add empty key value xs grouped) :=
  filled_foldl (put_puts adds) filled

def putProduct (add : T → C → C) (empty : C) (key : R → S → K) (value : S → T) (rs : List R)
    (xs : List S) : Grouping K C :=
  rs.foldl (fun grouped r => putAll add empty (key r) value xs grouped) []

theorem holds_putProduct (adds : Adds add empty) {key : R → S → K} {value : S → T}
    {rs : List R} {xs : List S} {key' : K} {value' : T} :
    Holds (putProduct add empty key value rs xs) key' value' ↔
      ∃ r ∈ rs, ∃ x ∈ xs, key r x = key' ∧ value x = value' := by
  have general : ∀ grouped : Grouping K C,
      Holds (rs.foldl (fun grouped r => putAll add empty (key r) value xs grouped) grouped)
          key' value' ↔
        Holds grouped key' value' ∨ ∃ r ∈ rs, ∃ x ∈ xs, key r x = key' ∧ value x = value' := by
    induction rs with
    | nil => simp
    | cons r rest ih =>
      intro grouped
      rw [List.foldl_cons, ih, holds_putAll adds, List.exists_mem_cons_iff, or_assoc]
  rw [putProduct, general]
  exact or_iff_right not_holds_nil

theorem filled_putProduct (adds : Adds add empty) (key : R → S → K) (value : S → T)
    (rs : List R) (xs : List S) : Filled T (putProduct add empty key value rs xs) := by
  have general : ∀ grouped : Grouping K C, Filled T grouped →
      Filled T (rs.foldl (fun grouped r => putAll add empty (key r) value xs grouped)
        grouped) := by
    induction rs with
    | nil => exact fun _ filled => filled
    | cons r rest ih => exact fun _ filled => ih _ (filled_putAll adds filled)
  exact general [] (fun group member => absurd member List.not_mem_nil)

theorem forall_putProduct (adds : Adds add empty) (key : R → S → K) (value : S → T)
    (rs : List R) (xs : List S) (P : K → T → Prop) :
    (∀ group ∈ (putProduct add empty key value rs xs : Grouping K C), ∀ held ∈ group.2,
      P group.1 held) ↔ ∀ r ∈ rs, ∀ x ∈ xs, P (key r x) (value x) := by
  constructor
  · intro each r listed x among
    have present : Holds (putProduct add empty key value rs xs) (key r x) (value x) :=
      (holds_putProduct adds).mpr ⟨r, listed, x, among, rfl, rfl⟩
    obtain ⟨held, member, inside⟩ := present
    exact each _ member _ inside
  · rintro each ⟨k, held⟩ member t inside
    obtain ⟨r, listed, x, among, rfl, rfl⟩ :=
      (holds_putProduct adds).mp ⟨held, member, inside⟩
    exact each r listed x among

section inOrder

def snoc (value : T) (held : List T) : List T := held ++ [value]

variable {key : S → K} {value : S → T}

omit [Membership T C] in
theorem keys_put {k : K} {t : T} {grouped : Grouping K C} :
    (put add empty k t grouped).map Prod.fst =
      if k ∈ grouped.map Prod.fst then grouped.map Prod.fst
      else grouped.map Prod.fst ++ [k] := by
  induction grouped with
  | nil => simp [put]
  | cons group rest ih =>
    obtain ⟨other, held⟩ := group
    rw [put]
    by_cases same : other = k
    · simp [same]
    · by_cases later : k ∈ rest.map Prod.fst <;> simp_all [Ne.symm same]

omit [Membership T C] in
theorem find?_keys {p : K → Bool} {xs : List S} {grouped : Grouping K C} :
    ((putAll add empty key value xs grouped).map Prod.fst).find? p =
      (grouped.map Prod.fst ++ xs.map key).find? p := by
  unfold putAll
  induction xs generalizing grouped with
  | nil => simp
  | cons x rest ih =>
    rw [List.foldl_cons, ih, keys_put]
    by_cases old : key x ∈ grouped.map Prod.fst
    · rw [if_pos old, List.map_cons, List.find?_append, List.find?_append]
      cases found : (grouped.map Prod.fst).find? p with
      | some k => rfl
      | none =>
        have refused := List.find?_eq_none.mp found (key x) old
        rw [List.find?_cons_of_neg refused]
    · rw [if_neg old, List.map_cons, List.append_assoc, List.singleton_append]

def under (grouped : Grouping K (List T)) (k : K) : List T := (grouped.lookup k).getD []

theorem under_cons_self {k : K} {held : List T} {rest : Grouping K (List T)} :
    under ((k, held) :: rest) k = held := by
  rw [under, List.lookup_cons_self]
  rfl

theorem under_cons_ne {k other : K} {held : List T} {rest : Grouping K (List T)}
    (different : k ≠ other) : under ((other, held) :: rest) k = under rest k := by
  have differs : (k == other) = false := beq_eq_false_iff_ne.mpr different
  rw [under, List.lookup_cons, differs]
  rfl

theorem under_put {grouped : Grouping K (List T)} {k k' : K} {t : T} :
    under (put snoc [] k t grouped) k' =
      if k = k' then under grouped k' ++ [t] else under grouped k' := by
  induction grouped with
  | nil =>
    rw [put]
    by_cases same : k = k'
    · rw [if_pos same, same, under_cons_self]
      rfl
    · rw [if_neg same, under_cons_ne (Ne.symm same)]
  | cons group rest ih =>
    obtain ⟨other, held⟩ := group
    rw [put]
    by_cases here : other = k
    · subst here
      rw [if_pos rfl]
      by_cases same : other = k'
      · rw [if_pos same, same, under_cons_self, under_cons_self]
        rfl
      · rw [if_neg same, under_cons_ne (Ne.symm same), under_cons_ne (Ne.symm same)]
    · rw [if_neg here]
      by_cases same : k' = other
      · rw [same, under_cons_self, under_cons_self, if_neg (Ne.symm here)]
      · rw [under_cons_ne same, under_cons_ne same, ih]

theorem under_putAll {xs : List S} {grouped : Grouping K (List T)} {k : K} :
    under (putAll snoc [] key value xs grouped) k =
      under grouped k ++ (xs.filter fun x => key x = k).map value := by
  unfold putAll
  induction xs generalizing grouped with
  | nil => simp
  | cons x rest ih =>
    rw [List.foldl_cons, ih, under_put]
    by_cases same : key x = k <;> simp [same]

theorem find?_under {p : K → Bool} {grouped : Grouping K (List T)} :
    grouped.find? (fun group => p group.1) =
      ((grouped.map Prod.fst).find? p).map fun k => (k, under grouped k) := by
  induction grouped with
  | nil => rfl
  | cons group rest ih =>
    obtain ⟨other, held⟩ := group
    rw [List.map_cons]
    by_cases here : p other = true
    · rw [List.find?_cons_of_pos (by exact here), List.find?_cons_of_pos here, Option.map_some,
        under_cons_self]
    · rw [List.find?_cons_of_neg (by exact here), List.find?_cons_of_neg here, ih]
      cases found : (rest.map Prod.fst).find? p with
      | none => rfl
      | some k =>
        have different : k ≠ other := by
          rintro rfl
          exact here (List.find?_some found)
        rw [Option.map_some, Option.map_some, under_cons_ne different]

theorem find?_groups {p : K → Bool} {xs : List S} :
    (putAll snoc [] key value xs []).find? (fun group => p group.1) =
      ((xs.map key).find? p).map fun k => (k, (xs.filter fun x => key x = k).map value) := by
  rw [find?_under, find?_keys]
  simp only [under_putAll]
  rfl

end inOrder

end Groupings
