import Mathlib.Data.List.Basic

/-!
Runs of a labelled partial step function, and the laws used to reason about
them. Every choice of the environment is part of the label, so a run is the
list of its labels and a fixed run can be evaluated. `Meets` restricts a run by
a condition on each step it takes; `Always` speaks of every state it passes.
-/
namespace GuardedRuns
universe u v
variable {S : Type u} {A : Type v} {step : S → A → Option S}

/-- The state a run ends in; `none` when one of its labels is not enabled. -/
def exec (step : S → A → Option S) : S → List A → Option S
  | s, [] => some s
  | s, a :: rest =>
    match step s a with
    | some t => exec step t rest
    | none => none

/-- Every step the run takes satisfies `guard` in the state it is taken from. -/
def Meets (step : S → A → Option S) (guard : S → A → Prop) : S → List A → Prop
  | _, [] => True
  | s, a :: rest =>
    match step s a with
    | some t => guard s a ∧ Meets step guard t rest
    | none => True

def Always (step : S → A → Option S) (P : S → Prop) : S → List A → Prop
  | s, [] => P s
  | s, a :: rest =>
    match step s a with
    | some t => P s ∧ Always step P t rest
    | none => P s

def decideMeets (guard : S → A → Prop) [∀ s a, Decidable (guard s a)] :
    ∀ s labels, Decidable (Meets step guard s labels)
  | _, [] => isTrue trivial
  | s, a :: rest =>
    match found : step s a with
    | some t =>
      have := decideMeets guard t rest
      decidable_of_iff (guard s a ∧ Meets step guard t rest) (by rw [Meets, found])
    | none => isTrue (by rw [Meets, found]; trivial)

instance {guard : S → A → Prop} [∀ s a, Decidable (guard s a)] {s : S} {labels : List A} :
    Decidable (Meets step guard s labels) := decideMeets guard s labels

@[simp] theorem exec_nil (s : S) : exec step s [] = some s := rfl

theorem exec_cons {s t : S} {a : A} {rest : List A} :
    exec step s (a :: rest) = some t ↔ ∃ m, step s a = some m ∧ exec step m rest = some t := by
  rw [exec]
  cases step s a with
  | none => simp
  | some m => simp

theorem meets_of_mem {guard : S → A → Prop} {labels : List A}
    (all : ∀ s, ∀ a ∈ labels, guard s a) (s : S) : Meets step guard s labels := by
  induction labels generalizing s with
  | nil => trivial
  | cons a rest ih =>
    rw [Meets]
    cases step s a with
    | none => trivial
    | some t =>
      constructor
      · exact all s a List.mem_cons_self
      · exact ih (fun s b later => all s b (List.mem_cons_of_mem a later)) t

theorem meets_congr {P Q : S → A → Prop} (same : ∀ s a, P s a ↔ Q s a) (s : S) (labels : List A) :
    Meets step P s labels ↔ Meets step Q s labels := by
  induction labels generalizing s with
  | nil => exact Iff.rfl
  | cons a rest ih =>
    rw [Meets, Meets]
    cases step s a with
    | none => exact Iff.rfl
    | some t => exact and_congr (same s a) (ih t)

theorem meets_labelled {guard : S → A → Prop} {allowed : A → Prop} {labels : List A}
    (all : ∀ a ∈ labels, allowed a) {s : S} (met : Meets step guard s labels) :
    Meets step (fun s a => guard s a ∧ allowed a) s labels := by
  induction labels generalizing s with
  | nil => trivial
  | cons a rest ih =>
    rw [Meets] at met ⊢
    cases taken : step s a with
    | none => trivial
    | some t =>
      rw [taken] at met
      have later := ih (fun b member => all b (List.mem_cons_of_mem a member)) met.2
      exact ⟨⟨met.1, all a List.mem_cons_self⟩, later⟩

theorem guarded_invariant {guard : S → A → Prop} {Inv : S → Prop}
    (preserved : ∀ {s a t}, Inv s → guard s a → step s a = some t → Inv t)
    {s t : S} {labels : List A} (start : Inv s) (run : exec step s labels = some t)
    (met : Meets step guard s labels) : Inv t := by
  induction labels generalizing s with
  | nil =>
    cases run
    exact start
  | cons a rest ih =>
    obtain ⟨m, taken, tail⟩ := exec_cons.mp run
    rw [Meets, taken] at met
    exact ih (preserved start met.1 taken) tail met.2

theorem invariant {Inv : S → Prop}
    (preserved : ∀ {s a t}, Inv s → step s a = some t → Inv t)
    {s t : S} {labels : List A} (start : Inv s) (run : exec step s labels = some t) : Inv t := by
  have met : Meets step (fun _ _ => True) s labels := meets_of_mem (fun _ _ _ => trivial) s
  exact guarded_invariant (fun held _ taken => preserved held taken) start run met

theorem always_start {P : S → Prop} {s : S} {labels : List A}
    (always : Always step P s labels) : P s := by
  cases labels with
  | nil => exact always
  | cons a rest =>
    rw [Always] at always
    cases taken : step s a with
    | none =>
      rw [taken] at always
      exact always
    | some t =>
      rw [taken] at always
      exact always.1

theorem always_iff_prefix {P : S → Prop} {s : S} {labels : List A} :
    Always step P s labels ↔ ∀ first t, first <+: labels → exec step s first = some t → P t := by
  induction labels generalizing s with
  | nil =>
    constructor
    · intro always first t initial run
      rw [List.prefix_nil.mp initial] at run
      cases run
      exact always
    · intro every
      exact every [] s (List.prefix_refl []) rfl
  | cons a rest ih =>
    constructor
    · intro always first t initial run
      cases first with
      | nil =>
        cases run
        exact always_start always
      | cons b first =>
        obtain ⟨rfl, initialTail⟩ := List.cons_prefix_cons.mp initial
        obtain ⟨m, taken, tail⟩ := exec_cons.mp run
        rw [Always, taken] at always
        exact ih.mp always.2 first t initialTail tail
    · intro every
      have here : P s := every [] s List.nil_prefix rfl
      rw [Always]
      cases taken : step s a with
      | none => exact here
      | some m =>
        refine ⟨here, ih.mpr ?_⟩
        intro first t initial run
        exact every (a :: first) t (List.cons_prefix_cons.mpr ⟨rfl, initial⟩)
          (exec_cons.mpr ⟨m, taken, run⟩)

theorem always_of_meets {guard : S → A → Prop} {Inv P : S → Prop}
    (preserved : ∀ {s a t}, Inv s → guard s a → step s a = some t → Inv t)
    (implied : ∀ {s}, Inv s → P s)
    {s : S} {labels : List A} (start : Inv s) (met : Meets step guard s labels) :
    Always step P s labels := by
  induction labels generalizing s with
  | nil => exact implied start
  | cons a rest ih =>
    rw [Always]
    rw [Meets] at met
    cases taken : step s a with
    | none => exact implied start
    | some t =>
      rw [taken] at met
      exact ⟨implied start, ih (preserved start met.1 taken) met.2⟩

/-- The exact condition of a run whose labels are allowed: `P` holds in every state it
    passes iff each of its steps meets the guard, once a step that breaks the guard
    breaks `P`. -/
theorem always_iff_meets_given {allowed guard : S → A → Prop} {Inv P : S → Prop}
    (preserved : ∀ {s a t}, Inv s → allowed s a → guard s a → step s a = some t → Inv t)
    (implied : ∀ {s}, Inv s → P s)
    (needed : ∀ {s a t}, Inv s → allowed s a → step s a = some t → P t → guard s a)
    {s : S} {labels : List A} (start : Inv s) (met : Meets step allowed s labels) :
    Always step P s labels ↔ Meets step guard s labels := by
  induction labels generalizing s with
  | nil => exact ⟨fun _ => trivial, fun _ => implied start⟩
  | cons a rest ih =>
    rw [Meets] at met
    rw [Always, Meets]
    cases taken : step s a with
    | none => exact ⟨fun _ => trivial, fun _ => implied start⟩
    | some t =>
      rw [taken] at met
      constructor
      · intro always
        have here : guard s a := needed start met.1 taken (always_start always.2)
        exact ⟨here, (ih (preserved start met.1 here taken) met.2).mp always.2⟩
      · intro guarded
        exact ⟨implied start,
          (ih (preserved start met.1 guarded.1 taken) met.2).mpr guarded.2⟩

theorem always_iff_meets {guard : S → A → Prop} {Inv P : S → Prop}
    (preserved : ∀ {s a t}, Inv s → guard s a → step s a = some t → Inv t)
    (implied : ∀ {s}, Inv s → P s)
    (needed : ∀ {s a t}, Inv s → step s a = some t → P t → guard s a)
    {s : S} {labels : List A} (start : Inv s) :
    Always step P s labels ↔ Meets step guard s labels := by
  have every : Meets step (fun _ _ => True) s labels := meets_of_mem (fun _ _ _ => trivial) s
  exact always_iff_meets_given (fun held _ met taken => preserved held met taken) implied
    (fun held _ taken kept => needed held taken kept) start every

theorem meets_iff {guard P Q : S → A → Prop} {Inv : S → Prop}
    (preserved : ∀ {s a t}, Inv s → guard s a → P s a → step s a = some t → Inv t)
    (same : ∀ {s a t}, Inv s → guard s a → step s a = some t → (P s a ↔ Q s a))
    {s : S} {labels : List A} (start : Inv s) (met : Meets step guard s labels) :
    Meets step P s labels ↔ Meets step Q s labels := by
  induction labels generalizing s with
  | nil => exact Iff.rfl
  | cons a rest ih =>
    rw [Meets] at met
    rw [Meets, Meets]
    cases taken : step s a with
    | none => exact Iff.rfl
    | some t =>
      rw [taken] at met
      have here := same start met.1 taken
      constructor
      · intro both
        exact ⟨here.mp both.1, (ih (preserved start met.1 both.1 taken) met.2).mp both.2⟩
      · intro both
        have first := here.mpr both.1
        exact ⟨first, (ih (preserved start met.1 first taken) met.2).mpr both.2⟩

end GuardedRuns
