import Mathlib.Data.List.Basic

/-!
An append-only log whose entries are numbered from one. `window` selects the
entries of a half-open range of positions. A window that lies inside the log is
not changed by later appends, and adjacent windows concatenate.
-/
namespace PositionedLogs
universe u
variable {E : Type u}

def entriesFrom (start : Nat) : List E → List (Nat × E)
  | [] => []
  | e :: rest => (start, e) :: entriesFrom (start + 1) rest

def entries (log : List E) : List (Nat × E) := entriesFrom 1 log

def inWindow (keep : E → Bool) (lo hi : Nat) (entry : Nat × E) : Bool :=
  decide (lo < entry.1) && decide (entry.1 ≤ hi) && keep entry.2

def window (keep : E → Bool) (log : List E) (lo hi : Nat) : List (Nat × E) :=
  (entries log).filter (inWindow keep lo hi)

theorem inWindow_iff {keep : E → Bool} {lo hi : Nat} {entry : Nat × E} :
    inWindow keep lo hi entry = true ↔ lo < entry.1 ∧ entry.1 ≤ hi ∧ keep entry.2 = true := by
  simp [inWindow, and_assoc]

theorem entriesFrom_append (start : Nat) (xs ys : List E) :
    entriesFrom start (xs ++ ys) =
      entriesFrom start xs ++ entriesFrom (start + xs.length) ys := by
  induction xs generalizing start with
  | nil => simp [entriesFrom]
  | cons x rest ih =>
    have shift : start + 1 + rest.length = start + (x :: rest).length := by
      simp only [List.length_cons]
      omega
    simp only [List.cons_append, entriesFrom, ih, shift]

theorem entries_append (xs ys : List E) :
    entries (xs ++ ys) = entries xs ++ entriesFrom (xs.length + 1) ys := by
  rw [entries, entriesFrom_append, entries, Nat.add_comm]

theorem entriesFrom_bounds {start p : Nat} {e : E} {xs : List E}
    (member : (p, e) ∈ entriesFrom start xs) : start ≤ p ∧ p < start + xs.length := by
  induction xs generalizing start with
  | nil => simp [entriesFrom] at member
  | cons x rest ih =>
    simp only [entriesFrom, List.mem_cons, Prod.mk.injEq] at member
    simp only [List.length_cons]
    cases member with
    | inl here => omega
    | inr later =>
      have bounds := ih later
      omega

theorem entries_bounds {p : Nat} {e : E} {log : List E} (member : (p, e) ∈ entries log) :
    0 < p ∧ p ≤ log.length := by
  have bounds := entriesFrom_bounds member
  omega

theorem entriesFrom_ascending (start : Nat) (xs : List E) :
    (entriesFrom start xs).Pairwise (fun a b => a.1 < b.1) := by
  induction xs generalizing start with
  | nil => exact List.Pairwise.nil
  | cons x rest ih =>
    refine List.pairwise_cons.mpr ⟨?_, ih (start + 1)⟩
    rintro ⟨p, e⟩ member
    have bounds := entriesFrom_bounds member
    simp only
    omega

theorem entries_ascending (log : List E) :
    (entries log).Pairwise (fun a b => a.1 < b.1) := entriesFrom_ascending 1 log

theorem ascending_unique {xs : List (Nat × E)} (ascending : xs.Pairwise (fun a b => a.1 < b.1))
    {p : Nat} {e f : E} (left : (p, e) ∈ xs) (right : (p, f) ∈ xs) : e = f := by
  induction xs with
  | nil => exact absurd left List.not_mem_nil
  | cons x rest ih =>
    obtain ⟨above, tail⟩ := List.pairwise_cons.mp ascending
    rcases List.mem_cons.mp left with hereL | laterL
    · rcases List.mem_cons.mp right with hereR | laterR
      · exact (Prod.mk.inj (hereL.trans hereR.symm)).2
      · have strict : p < p := by simpa [← hereL] using above _ laterR
        omega
    · rcases List.mem_cons.mp right with hereR | laterR
      · have strict : p < p := by simpa [← hereR] using above _ laterL
        omega
      · exact ih tail laterL laterR

theorem mem_entries_append_left {p : Nat} {e : E} {log more : List E}
    (member : (p, e) ∈ entries log) : (p, e) ∈ entries (log ++ more) := by
  rw [entries_append]
  exact List.mem_append_left _ member

theorem mem_entries_of_le {p : Nat} {e : E} {log more : List E}
    (member : (p, e) ∈ entries (log ++ more)) (old : p ≤ log.length) : (p, e) ∈ entries log := by
  rw [entries_append, List.mem_append] at member
  cases member with
  | inl here => exact here
  | inr new =>
    have bounds := entriesFrom_bounds new
    omega

theorem entriesFrom_of_mem {e : E} {xs : List E} (member : e ∈ xs) (start : Nat) :
    ∃ p, (p, e) ∈ entriesFrom start xs := by
  induction xs generalizing start with
  | nil => exact absurd member List.not_mem_nil
  | cons x rest ih =>
    rcases List.mem_cons.mp member with rfl | later
    · exact ⟨start, List.mem_cons_self⟩
    · obtain ⟨p, found⟩ := ih later (start + 1)
      exact ⟨p, List.mem_cons_of_mem _ found⟩

theorem entries_of_mem {e : E} {log : List E} (member : e ∈ log) : ∃ p, (p, e) ∈ entries log :=
  entriesFrom_of_mem member 1

theorem mem_of_entriesFrom {e : E} {xs : List E} {start p : Nat}
    (member : (p, e) ∈ entriesFrom start xs) : e ∈ xs := by
  induction xs generalizing start with
  | nil => exact absurd member List.not_mem_nil
  | cons x rest ih =>
    rcases List.mem_cons.mp member with here | later
    · exact List.mem_cons.mpr (Or.inl (Prod.mk.inj here).2)
    · exact List.mem_cons_of_mem x (ih later)

theorem mem_of_entries {p : Nat} {e : E} {log : List E} (member : (p, e) ∈ entries log) :
    e ∈ log := mem_of_entriesFrom member

theorem mem_window {keep : E → Bool} {log : List E} {lo hi p : Nat} {e : E} :
    (p, e) ∈ window keep log lo hi ↔
      (p, e) ∈ entries log ∧ lo < p ∧ p ≤ hi ∧ keep e = true := by
  rw [window, List.mem_filter, inWindow_iff]

theorem window_ascending (keep : E → Bool) (log : List E) (lo hi : Nat) :
    (window keep log lo hi).Pairwise (fun a b => a.1 < b.1) := (entries_ascending log).filter _

theorem ascending_length {xs : List (Nat × E)} {lo hi : Nat}
    (ascending : xs.Pairwise (fun a b => a.1 < b.1))
    (bounds : ∀ entry ∈ xs, lo < entry.1 ∧ entry.1 ≤ hi) : xs.length ≤ hi - lo := by
  induction xs generalizing lo with
  | nil => exact Nat.zero_le _
  | cons x rest ih =>
    obtain ⟨above, tail⟩ := List.pairwise_cons.mp ascending
    have first := bounds x List.mem_cons_self
    have later := ih tail fun entry member =>
      ⟨above entry member, (bounds entry (List.mem_cons_of_mem x member)).2⟩
    rw [List.length_cons]
    omega

theorem window_length (keep : E → Bool) (log : List E) (lo hi : Nat) :
    (window keep log lo hi).length ≤ hi - lo := by
  apply ascending_length (window_ascending keep log lo hi)
  rintro ⟨p, e⟩ member
  obtain ⟨_, above, below, _⟩ := mem_window.mp member
  exact ⟨above, below⟩

theorem window_empty {keep : E → Bool} {log : List E} {lo hi : Nat} (inverted : hi ≤ lo) :
    window keep log lo hi = [] := by
  rw [window, List.filter_eq_nil_iff]
  intro entry _ kept
  have bounds := inWindow_iff.mp kept
  omega

theorem window_filter (wide keep : E → Bool) (log : List E) (lo hi : Nat) :
    (window wide log lo hi).filter (fun entry => keep entry.2) =
      window (fun e => wide e && keep e) log lo hi := by
  rw [window, window, List.filter_filter]
  apply List.filter_congr
  intro entry _
  apply Bool.eq_iff_iff.mpr
  simp only [Bool.and_eq_true, inWindow_iff]
  constructor
  · exact fun both => ⟨both.2.1, both.2.2.1, both.2.2.2, both.1⟩
  · exact fun inside => ⟨inside.2.2.2, inside.1, inside.2.1, inside.2.2.1⟩

theorem window_append {keep : E → Bool} {log more : List E} {lo hi : Nat}
    (old : hi ≤ log.length) : window keep (log ++ more) lo hi = window keep log lo hi := by
  have tail : (entriesFrom (log.length + 1) more).filter (inWindow keep lo hi) = [] := by
    rw [List.filter_eq_nil_iff]
    rintro ⟨p, e⟩ member kept
    have bounds := entriesFrom_bounds member
    have inside := inWindow_iff.mp kept
    simp only at inside
    omega
  rw [window, entries_append, List.filter_append, tail, List.append_nil, window]

theorem filter_split {keep : E → Bool} {lo mid hi : Nat} (left : lo ≤ mid) (right : mid ≤ hi)
    {xs : List (Nat × E)} (ascending : xs.Pairwise (fun a b => a.1 < b.1)) :
    xs.filter (inWindow keep lo hi) =
      xs.filter (inWindow keep lo mid) ++ xs.filter (inWindow keep mid hi) := by
  induction xs with
  | nil => rfl
  | cons x rest ih =>
    obtain ⟨above, tail⟩ := List.pairwise_cons.mp ascending
    simp only [List.filter_cons, ih tail]
    by_cases low : x.1 ≤ mid
    · have same : inWindow keep lo hi x = inWindow keep lo mid x := by
        simp only [inWindow, low, Nat.le_trans low right, decide_true]
      have outside : inWindow keep mid hi x = false := by
        simp [inWindow, Nat.not_lt.mpr low]
      rw [same, outside]
      cases inWindow keep lo mid x <;> simp
    · have high : mid < x.1 := Nat.not_le.mp low
      have same : inWindow keep lo hi x = inWindow keep mid hi x := by
        simp only [inWindow, high, Nat.lt_of_le_of_lt left high, decide_true]
      have outside : inWindow keep lo mid x = false := by
        simp [inWindow, low]
      have none : rest.filter (inWindow keep lo mid) = [] := by
        rw [List.filter_eq_nil_iff]
        intro y member kept
        have later := above y member
        have inside := inWindow_iff.mp kept
        omega
      rw [same, outside, none]
      cases inWindow keep mid hi x <;> simp

theorem window_split {keep : E → Bool} {log : List E} {lo mid hi : Nat} (left : lo ≤ mid)
    (right : mid ≤ hi) :
    window keep log lo hi = window keep log lo mid ++ window keep log mid hi :=
  filter_split left right (entries_ascending log)

end PositionedLogs
