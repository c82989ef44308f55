import Mathlib.Data.List.Forall2

/-!
Folds and traversals that stop at the first failure, as lists of results of
`Except`. A traversal that succeeds related its lists pointwise; an element that
a step leaves alone can be left out of a fold; several accumulators folded side
by side are folded one by one.
-/
namespace FallibleFolds
universe u v w x
variable {ε : Type u} {α : Type v} {β : Type w} {σ : Type x}

theorem bind_ok {x : Except ε α} {f : α → Except ε β} {b : β} :
    x.bind f = .ok b ↔ ∃ a, x = .ok a ∧ f a = .ok b := by
  cases x with
  | error err => simp [Except.bind]
  | ok a => simp [Except.bind]

theorem do_ok {γ : Type v} {x : Except ε α} {f : α → Except ε γ} {b : γ} :
    (x >>= f) = .ok b ↔ ∃ a, x = .ok a ∧ f a = .ok b := bind_ok

theorem mapped_ok {x : Except ε α} {f : α → β} {b : β} :
    x.map f = .ok b ↔ ∃ a, x = .ok a ∧ f a = b := by
  cases x with
  | error err => simp [Except.map]
  | ok a => simp [Except.map]

theorem map_ok {γ : Type v} {x : Except ε α} {f : α → γ} {b : γ} :
    (f <$> x) = .ok b ↔ ∃ a, x = .ok a ∧ f a = b := mapped_ok

theorem mapError_ok {ε' : Type w} {x : Except ε α} {f : ε → ε'} {a : α} :
    x.mapError f = .ok a ↔ x = .ok a := by
  cases x <;> simp [Except.mapError]

theorem toOption_ok {x : Except ε α} {a : α} : x.toOption = some a ↔ x = .ok a := by
  cases x <;> simp [Except.toOption]

theorem mapM_ok {f : α → Except ε β} {xs : List α} {ys : List β} :
    xs.mapM f = .ok ys ↔ List.Forall₂ (fun x y => f x = .ok y) xs ys := by
  induction xs generalizing ys with
  | nil =>
    simp only [List.mapM_nil, pure, Except.pure, Except.ok.injEq, List.forall₂_nil_left_iff]
    exact eq_comm
  | cons x rest ih =>
    simp only [List.mapM_cons, do_ok, pure, Except.pure, Except.ok.injEq,
      List.forall₂_cons_left_iff]
    constructor
    · rintro ⟨y, here, tail, later, rfl⟩
      exact ⟨y, tail, here, ih.mp later, rfl⟩
    · rintro ⟨y, tail, here, later, rfl⟩
      exact ⟨y, here, tail, ih.mpr later, rfl⟩

theorem mapM_succeeds {f : α → Except ε β} {xs : List α} :
    (∃ ys, xs.mapM f = .ok ys) ↔ ∀ x ∈ xs, ∃ y, f x = .ok y := by
  simp only [mapM_ok]
  constructor
  · rintro ⟨ys, pointwise⟩
    induction pointwise with
    | nil => exact fun x member => absurd member List.not_mem_nil
    | cons here _ ih => exact List.forall_mem_cons.mpr ⟨⟨_, here⟩, ih⟩
  · intro each
    induction xs with
    | nil => exact ⟨[], List.Forall₂.nil⟩
    | cons x rest ih =>
      obtain ⟨⟨y, here⟩, others⟩ := List.forall_mem_cons.mp each
      obtain ⟨ys, pointwise⟩ := ih others
      exact ⟨y :: ys, List.Forall₂.cons here pointwise⟩

theorem forall₂_through {R : α → β → Prop} {S : β → σ → Prop} {T : α → σ → Prop} {xs : List α}
    {ys : List β} {zs : List σ}
    (through : ∀ x ∈ xs, ∀ y, ∀ z ∈ zs, R x y → S y z → T x z)
    (first : List.Forall₂ R xs ys) (second : List.Forall₂ S ys zs) : List.Forall₂ T xs zs := by
  induction first generalizing zs with
  | nil =>
    cases second
    exact List.Forall₂.nil
  | cons here _ ih =>
    obtain ⟨z, rest, next, others, rfl⟩ := List.forall₂_cons_left_iff.mp second
    apply List.Forall₂.cons
    · exact through _ List.mem_cons_self _ _ List.mem_cons_self here next
    · apply ih _ others
      intro x member y z later
      exact through x (List.mem_cons_of_mem _ member) y z (List.mem_cons_of_mem _ later)

theorem forall₂_between {R : α → β → Prop} {S : β → σ → Prop} {xs : List α} {zs : List σ}
    (pointwise : List.Forall₂ (fun x z => ∃ y, R x y ∧ S y z) xs zs) :
    ∃ ys, List.Forall₂ R xs ys ∧ List.Forall₂ S ys zs := by
  induction pointwise with
  | nil => exact ⟨[], List.Forall₂.nil, List.Forall₂.nil⟩
  | cons here _ ih =>
    obtain ⟨y, left, right⟩ := here
    obtain ⟨ys, lefts, rights⟩ := ih
    exact ⟨y :: ys, List.Forall₂.cons left lefts, List.Forall₂.cons right rights⟩

theorem forall₂_exists_map {R : α → β → Prop} {f : β → σ} {xs : List α} {zs : List σ} :
    (∃ ys, List.Forall₂ R xs ys ∧ ys.map f = zs) ↔
      List.Forall₂ (fun x z => ∃ y, R x y ∧ f y = z) xs zs := by
  constructor
  · rintro ⟨ys, related, rfl⟩
    apply List.forall₂_map_right_iff.mpr
    exact related.imp fun x y here => ⟨y, here, rfl⟩
  · intro pointwise
    obtain ⟨ys, left, right⟩ := forall₂_between pointwise
    have images := List.forall₂_map_left_iff.mpr right
    rw [List.forall₂_eq_eq_eq] at images
    exact ⟨ys, left, images⟩

theorem forall₂_append_left {R : α → β → Prop} {xs ys : List α} {zs : List β} :
    List.Forall₂ R (xs ++ ys) zs ↔
      ∃ us vs, List.Forall₂ R xs us ∧ List.Forall₂ R ys vs ∧ zs = us ++ vs := by
  constructor
  · intro related
    induction xs generalizing zs with
    | nil => exact ⟨[], zs, List.Forall₂.nil, related, rfl⟩
    | cons x rest ih =>
      obtain ⟨z, tail, here, later, rfl⟩ := List.forall₂_cons_left_iff.mp related
      obtain ⟨us, vs, left, right, rfl⟩ := ih later
      exact ⟨z :: us, vs, List.Forall₂.cons here left, right, rfl⟩
  · rintro ⟨us, vs, left, right, rfl⟩
    exact List.rel_append left right

theorem forall₂_exists_left {R : α → β → Prop} {xs : List α} {ys : List β}
    (pointwise : List.Forall₂ R xs ys) {y : β} (member : y ∈ ys) : ∃ x ∈ xs, R x y := by
  induction pointwise with
  | nil => exact absurd member List.not_mem_nil
  | cons here _ ih =>
    rcases List.mem_cons.mp member with rfl | later
    · exact ⟨_, List.mem_cons_self, here⟩
    · obtain ⟨x, among, related⟩ := ih later
      exact ⟨x, List.mem_cons_of_mem _ among, related⟩

theorem forall₂_all_iff {P : α → Prop} {Q : β → Prop} {xs : List α} {ys : List β}
    (pointwise : List.Forall₂ (fun x y => Q y ↔ P x) xs ys) :
    (∀ x ∈ xs, P x) ↔ ∀ y ∈ ys, Q y := by
  induction pointwise with
  | nil => simp
  | cons here _ ih => simp only [List.forall_mem_cons, here, ih]

theorem mapM_check {f : α → Except ε α} (keeps : ∀ x y, f x = .ok y → y = x) {xs ys : List α}
    (checked : xs.mapM f = .ok ys) : ys = xs := by
  have pointwise := mapM_ok.mp checked
  clear checked
  induction pointwise with
  | nil => rfl
  | cons here _ ih => rw [keeps _ _ here, ih]

theorem mapM_filter {f : α → Except ε β} {p : α → Bool} {q : β → Bool}
    (same : ∀ x y, f x = .ok y → p x = q y) {xs : List α} {ys : List β}
    (traversed : xs.mapM f = .ok ys) : (xs.filter p).mapM f = .ok (ys.filter q) := by
  have pointwise := mapM_ok.mp traversed
  clear traversed
  apply mapM_ok.mpr
  induction pointwise with
  | nil => exact List.Forall₂.nil
  | @cons x y restX restY here _ ih =>
    have agree := same x y here
    by_cases wanted : p x = true
    · rw [List.filter_cons_of_pos wanted, List.filter_cons_of_pos (agree ▸ wanted)]
      exact List.Forall₂.cons here ih
    · rw [List.filter_cons_of_neg wanted, List.filter_cons_of_neg (agree ▸ wanted)]
      exact ih

theorem mapM_exists {f : α → Except ε β} {P : α → Prop} {Q : β → Prop}
    (agree : ∀ x y, f x = .ok y → (Q y ↔ P x)) {xs : List α} {ys : List β}
    (traversed : xs.mapM f = .ok ys) : (∃ y ∈ ys, Q y) ↔ ∃ x ∈ xs, P x := by
  have pointwise := mapM_ok.mp traversed
  clear traversed
  induction pointwise with
  | nil => simp
  | cons here _ ih => simp only [List.exists_mem_cons_iff, ih, agree _ _ here]

theorem foldlM_cons_ok {step : σ → α → Except ε σ} {x : α} {rest : List α} {s t : σ} :
    (x :: rest).foldlM step s = .ok t ↔
      ∃ mid, step s x = .ok mid ∧ rest.foldlM step mid = .ok t := by
  rw [List.foldlM_cons, do_ok]

theorem foldlM_filter {step : σ → α → Except ε σ} {p : α → Bool} {P : σ → Prop}
    (ignores : ∀ s x, P s → p x = false → step s x = .ok s)
    (preserves : ∀ s x t, P s → step s x = .ok t → P t) {xs : List α} {s t : σ} (inv : P s)
    (folded : xs.foldlM step s = .ok t) : (xs.filter p).foldlM step s = .ok t := by
  induction xs generalizing s with
  | nil => exact folded
  | cons x rest ih =>
    obtain ⟨mid, here, later⟩ := foldlM_cons_ok.mp folded
    have tail := ih (preserves s x mid inv here) later
    cases wanted : p x with
    | true =>
      rw [List.filter_cons_of_pos wanted]
      exact foldlM_cons_ok.mpr ⟨mid, here, tail⟩
    | false =>
      obtain rfl : s = mid := Except.ok.inj ((ignores s x inv wanted).symm.trans here)
      rw [List.filter_cons_of_neg (by simp [wanted])]
      exact tail

theorem foldlM_within {τ : Type w} (step : σ → α → Except ε σ) (inner : τ → α → Except ε τ)
    (put : τ → σ) {xs : List α}
    (same : ∀ t, ∀ x ∈ xs, step (put t) x = (inner t x).map put) (t : τ) :
    xs.foldlM step (put t) = (xs.foldlM inner t).map put := by
  induction xs generalizing t with
  | nil => rfl
  | cons x rest ih =>
    rw [List.foldlM_cons, List.foldlM_cons, same t x List.mem_cons_self]
    cases inner t x with
    | error err => rfl
    | ok next => exact ih (fun t x member => same t x (List.mem_cons_of_mem _ member)) next

theorem foldlM_mapM {step : σ → α → Except ε σ} {xs : List α} {ss ts : List σ}
    (together : xs.foldlM (fun all x => all.mapM fun s => step s x) ss = .ok ts) :
    List.Forall₂ (fun s t => xs.foldlM step s = .ok t) ss ts := by
  induction xs generalizing ss with
  | nil =>
    obtain rfl : ss = ts := Except.ok.inj together
    exact List.forall₂_same.mpr fun s _ => rfl
  | cons x rest ih =>
    obtain ⟨mid, first, later⟩ := foldlM_cons_ok.mp together
    have stepped := mapM_ok.mp first
    have finished := ih later
    clear together first later ih
    induction stepped generalizing ts with
    | nil =>
      cases finished
      exact List.Forall₂.nil
    | cons here _ tail =>
      obtain ⟨t, others, ended, endedRest, rfl⟩ := List.forall₂_cons_left_iff.mp finished
      exact List.Forall₂.cons (foldlM_cons_ok.mpr ⟨_, here, ended⟩) (tail endedRest)

theorem foldlM_together {step : σ → α → Except ε σ} {xs : List α} {ss ts : List σ}
    (alone : List.Forall₂ (fun s t => xs.foldlM step s = .ok t) ss ts) :
    xs.foldlM (fun all x => all.mapM fun s => step s x) ss = .ok ts := by
  induction xs generalizing ss with
  | nil =>
    have same : List.Forall₂ Eq ss ts := alone.imp fun _ _ ended => Except.ok.inj ended
    rw [List.forall₂_eq_eq_eq] at same
    rw [same]
    rfl
  | cons x rest ih =>
    obtain ⟨mid, first, later⟩ := forall₂_between
      (alone.imp fun s t ended => foldlM_cons_ok.mp ended)
    exact foldlM_cons_ok.mpr ⟨mid, mapM_ok.mpr first, ih later⟩

end FallibleFolds
