import Umari.GuardedRuns

/-!
Runs of a labelled step function that have to come to an end. A measure that
every step lowers bounds the length of a run; where some allowed label is enabled
in every state that is not an end, each run goes on to one.
-/
namespace TerminatingRuns
universe u v
open GuardedRuns
variable {S : Type u} {A : Type v} {step : S → A → Option S} {Inv : S → Prop} {measure : S → Nat}

theorem exec_append {s t : S} {labels more : List A} :
    exec step s (labels ++ more) = some t ↔
      ∃ m, exec step s labels = some m ∧ exec step m more = some t := by
  induction labels generalizing s with
  | nil => simp
  | cons a rest ih =>
    simp only [List.cons_append, exec_cons, ih]
    constructor
    · rintro ⟨first, taken, middle, here, later⟩
      exact ⟨middle, ⟨first, taken, here⟩, later⟩
    · rintro ⟨middle, ⟨first, taken, here⟩, later⟩
      exact ⟨first, taken, middle, here, later⟩

theorem length_bounded
    (preserved : ∀ {s a t}, Inv s → step s a = some t → Inv t)
    (falls : ∀ {s a t}, Inv s → step s a = some t → measure t < measure s)
    {s t : S} {labels : List A} (start : Inv s) (run : exec step s labels = some t) :
    labels.length + measure t ≤ measure s := by
  induction labels generalizing s with
  | nil =>
    cases run
    simp
  | cons a rest ih =>
    obtain ⟨m, taken, tail⟩ := exec_cons.mp run
    have drop := falls start taken
    have later := ih (preserved start taken) tail
    simp only [List.length_cons]
    omega

theorem completes {Ended : S → Prop} {Allowed : A → Prop}
    (preserved : ∀ {s a t}, Inv s → step s a = some t → Inv t)
    (falls : ∀ {s a t}, Inv s → step s a = some t → measure t < measure s)
    (progress : ∀ {s}, Inv s → Ended s ∨ ∃ a t, Allowed a ∧ step s a = some t)
    {s : S} (start : Inv s) :
    ∃ labels t, (∀ a ∈ labels, Allowed a) ∧ exec step s labels = some t ∧ Ended t := by
  induction size : measure s using Nat.strongRecOn generalizing s with
  | ind n ih =>
    rcases progress start with ended | ⟨a, m, allowed, taken⟩
    · exact ⟨[], s, fun a member => absurd member List.not_mem_nil, rfl, ended⟩
    · have less : measure m < n := size ▸ falls start taken
      obtain ⟨rest, t, each, tail, ended⟩ := ih (measure m) less (preserved start taken) rfl
      refine ⟨a :: rest, t, ?_, exec_cons.mpr ⟨m, taken, tail⟩, ended⟩
      intro b member
      rcases List.mem_cons.mp member with rfl | later
      · exact allowed
      · exact each b later

end TerminatingRuns
