import Mathlib.Data.List.DropRight
import Mathlib.Data.Sum.Basic
import Mathlib.Logic.Function.Basic

/-!
Several sources that write into one log line by line. A source's open line grows by what
the source writes and joins the log when it ends, next to entries that are no lines. What
becomes of a source's lines depends on what this source writes only, and a homomorphism of
the lines' contents may be applied before or after the lines are put together.
-/
namespace LineBuffers
universe u v w x
variable {κ : Type u} {ε : Type v} {α : Type w} {β : Type x}

inductive Chunk (κ : Type u) (ε : Type v) (α : Type w) where
  | put (source : κ) (xs : List α)
  | endLine (source : κ)
  | entry (e : ε)
deriving DecidableEq

structure Buffers (κ : Type u) (ε : Type v) (α : Type w) where
  finished : List (ε ⊕ κ × List α)
  pending : κ → List α

def Buffers.empty : Buffers κ ε α := ⟨[], fun _ => []⟩

def Chunk.map (f : α → List β) : Chunk κ ε α → Chunk κ ε β
  | .put source xs => .put source (xs.flatMap f)
  | .endLine source => .endLine source
  | .entry e => .entry e

def mapItem (f : α → List β) : ε ⊕ κ × List α → ε ⊕ κ × List β
  | .inl e => .inl e
  | .inr (source, line) => .inr (source, line.flatMap f)

def Buffers.map (f : α → List β) (s : Buffers κ ε α) : Buffers κ ε β :=
  ⟨s.finished.map (mapItem f), fun source => (s.pending source).flatMap f⟩

@[simp]
theorem map_empty (f : α → List β) :
    (Buffers.empty : Buffers κ ε α).map f = Buffers.empty := rfl

section steps
variable [DecidableEq κ]

def Buffers.put (s : Buffers κ ε α) (source : κ) (xs : List α) : Buffers κ ε α :=
  { s with pending := Function.update s.pending source (s.pending source ++ xs) }

def Buffers.endLine (s : Buffers κ ε α) (source : κ) : Buffers κ ε α :=
  ⟨s.finished ++ [.inr (source, s.pending source)], Function.update s.pending source []⟩

def Buffers.add (s : Buffers κ ε α) (e : ε) : Buffers κ ε α :=
  { s with finished := s.finished ++ [.inl e] }

def Buffers.step (s : Buffers κ ε α) : Chunk κ ε α → Buffers κ ε α
  | .put source xs => s.put source xs
  | .endLine source => s.endLine source
  | .entry e => s.add e

def Buffers.run (s : Buffers κ ε α) (parts : List (Chunk κ ε α)) : Buffers κ ε α :=
  parts.foldl Buffers.step s

variable {s : Buffers κ ε α} {part : Chunk κ ε α} {parts more : List (Chunk κ ε α)} {source : κ}
  {xs ys : List α}

@[simp]
theorem run_nil : s.run [] = s := rfl

@[simp]
theorem run_cons : s.run (part :: parts) = (s.step part).run parts := rfl

theorem run_append : s.run (parts ++ more) = (s.run parts).run more := List.foldl_append

theorem put_nil : s.put source [] = s := by
  simp [Buffers.put]

theorem put_append : s.put source (xs ++ ys) = (s.put source xs).put source ys := by
  simp [Buffers.put]

theorem step_map (f : α → List β) : (s.map f).step (part.map f) = (s.step part).map f := by
  have updated : ∀ source xs, (fun k => (Function.update s.pending source xs k).flatMap f) =
      Function.update (fun k => (s.pending k).flatMap f) source (xs.flatMap f) := fun source xs =>
    funext (Function.apply_update (fun _ line => line.flatMap f) s.pending source xs)
  cases part with
  | put source xs =>
    simp [Chunk.map, Buffers.step, Buffers.put, Buffers.map, updated]
  | endLine source =>
    simp [Chunk.map, Buffers.step, Buffers.endLine, Buffers.map, mapItem, updated]
  | entry e => simp [Chunk.map, Buffers.step, Buffers.add, Buffers.map, mapItem]

theorem run_map (f : α → List β) :
    (s.map f).run (parts.map (Chunk.map f)) = (s.run parts).map f := by
  induction parts generalizing s with
  | nil => rfl
  | cons part rest ih => rw [List.map_cons, run_cons, run_cons, step_map, ih]

end steps

section sources
variable (keep : κ → Bool) (keepEntry : ε → Bool)

def Chunk.kept : Chunk κ ε α → Bool
  | .put source _ => keep source
  | .endLine source => keep source
  | .entry e => keepEntry e

def keptItem : ε ⊕ κ × List α → Bool
  | .inl e => keepEntry e
  | .inr (source, _) => keep source

/-- What the log would be with only the sources and entries that are kept. -/
def Buffers.restrict (s : Buffers κ ε α) : Buffers κ ε α :=
  ⟨s.finished.filter (keptItem keep keepEntry),
    fun source => if keep source then s.pending source else []⟩

@[simp]
theorem restrict_empty :
    (Buffers.empty : Buffers κ ε α).restrict keep keepEntry = Buffers.empty := by
  simp [Buffers.restrict, Buffers.empty]

variable [DecidableEq κ] {keep keepEntry} {s : Buffers κ ε α} {part : Chunk κ ε α}
  {parts : List (Chunk κ ε α)}

theorem restrict_update (pending : κ → List α) (source : κ) (xs : List α) :
    (fun k => if keep k then Function.update pending source xs k else []) =
      Function.update (fun k => if keep k then pending k else []) source
        (if keep source then xs else []) :=
  funext (Function.apply_update (fun k line => if keep k then line else []) pending source xs)

theorem step_kept (kept : part.kept keep keepEntry) :
    (s.restrict keep keepEntry).step part = (s.step part).restrict keep keepEntry := by
  cases part with
  | put source xs =>
    have kept : keep source = true := kept
    simp [Buffers.step, Buffers.put, Buffers.restrict, kept, restrict_update]
  | endLine source =>
    have kept : keep source = true := kept
    simp [Buffers.step, Buffers.endLine, Buffers.restrict, keptItem, kept, restrict_update]
  | entry e =>
    have kept : keepEntry e = true := kept
    simp [Buffers.step, Buffers.add, Buffers.restrict, keptItem, kept]

theorem step_dropped (dropped : part.kept keep keepEntry = false) :
    (s.step part).restrict keep keepEntry = s.restrict keep keepEntry := by
  have unchanged : ∀ source, keep source = false →
      Function.update (fun k => if keep k then s.pending k else []) source [] =
        fun k => if keep k then s.pending k else [] := by
    intro source dropped
    exact Function.update_eq_self_iff.mpr (by simp [dropped])
  cases part with
  | put source xs =>
    have dropped : keep source = false := dropped
    simp [Buffers.step, Buffers.put, Buffers.restrict, dropped, restrict_update, unchanged]
  | endLine source =>
    have dropped : keep source = false := dropped
    simp [Buffers.step, Buffers.endLine, Buffers.restrict, keptItem, dropped, restrict_update,
      unchanged]
  | entry e =>
    have dropped : keepEntry e = false := dropped
    simp [Buffers.step, Buffers.add, Buffers.restrict, keptItem, dropped]

theorem run_restrict : (s.restrict keep keepEntry).run (parts.filter (Chunk.kept keep keepEntry)) =
    (s.run parts).restrict keep keepEntry := by
  induction parts generalizing s with
  | nil => rfl
  | cons part rest ih =>
    cases kept : part.kept keep keepEntry with
    | true => rw [List.filter_cons_of_pos kept, run_cons, run_cons, step_kept kept, ih]
    | false =>
      rw [List.filter_cons_of_neg (by simp [kept]), run_cons, ← ih, step_dropped kept]

end sources

section cuts
variable [DecidableEq α] {sep : α} {source : κ} {l r : List α}

/-- One element as a source writes it: it ends the line or joins it. -/
def single (sep : α) (source : κ) (x : α) : Chunk κ ε α :=
  if x = sep then .endLine source else .put source [x]

def pieces (source : κ) : List (List α) → List (Chunk κ ε (List α))
  | [] => []
  | [last] => [.put source [last]]
  | line :: rest => .put source [line] :: .endLine source :: pieces source rest

def cut (sep : α) (source : κ) (xs : List α) : List (Chunk κ ε (List α)) :=
  pieces source (xs.splitOn sep)

theorem splitOn_free (free : sep ∉ l) : l.splitOn sep = [l] := by
  refine List.splitOnP_eq_singleton fun x member => ?_
  exact beq_eq_false_iff_ne.mpr fun same => free (same ▸ member)

theorem cut_last (free : sep ∉ l) :
    (cut sep source l : List (Chunk κ ε (List α))) = [.put source [l]] := by
  rw [cut, splitOn_free free, pieces]

theorem cut_line (free : sep ∉ l) :
    (cut sep source (l ++ sep :: r) : List (Chunk κ ε (List α))) =
      .put source [l] :: .endLine source :: cut sep source r := by
  have split : (l ++ sep :: r).splitOn sep = l :: r.splitOn sep := by
    have parts := @List.splitOnP_append_cons _ (· == sep) l r sep (beq_self_eq_true sep)
    exact parts.trans (congrArg (· ++ r.splitOn sep) (splitOn_free free))
  obtain ⟨first, rest, more⟩ := List.exists_cons_of_ne_nil (List.splitOnP_ne_nil (· == sep) r)
  have more : r.splitOn sep = first :: rest := more
  rw [cut, cut, split, more, pieces]
  simp

theorem cut_kept {keep : κ → Bool} {keepEntry : ε → Bool} {xs : List α}
    {part : Chunk κ ε (List α)} (member : part ∈ cut sep source xs) :
    part.kept keep keepEntry = keep source := by
  rw [cut] at member
  generalize xs.splitOn sep = lines at member
  induction lines with
  | nil => exact absurd member List.not_mem_nil
  | cons line rest ih =>
    cases rest with
    | nil =>
      obtain rfl := List.mem_singleton.mp member
      rfl
    | cons next rest =>
      rw [pieces] at member
      rcases List.mem_cons.mp member with rfl | member
      · rfl
      · rcases List.mem_cons.mp member with rfl | member
        · rfl
        · exact ih member
      · simp

theorem line_induction {motive : List α → Prop} (last : ∀ l, sep ∉ l → motive l)
    (line : ∀ l r, sep ∉ l → motive r → motive (l ++ sep :: r)) (xs : List α) : motive xs := by
  by_cases ends : sep ∈ xs
  · obtain ⟨l, r, rfl, free⟩ := List.eq_append_cons_of_mem ends
    exact line l r free (line_induction last line r)
  · exact last xs ends
termination_by xs.length

variable [DecidableEq κ] {s : Buffers κ ε α}

theorem run_joined (free : sep ∉ l) : s.run (l.map (single sep source)) = s.put source l := by
  induction l generalizing s with
  | nil => exact put_nil.symm
  | cons x rest ih =>
    obtain ⟨other, free⟩ : sep ≠ x ∧ sep ∉ rest := by simpa using free
    rw [List.map_cons, run_cons, single, if_neg (Ne.symm other), ih free, Buffers.step,
      ← put_append, List.singleton_append]

theorem run_single (xs : List α) : s.run (xs.map (single sep source)) =
    s.run ((cut sep source xs).map (Chunk.map id)) := by
  induction xs using @line_induction α _ sep generalizing s with
  | last l free =>
    rw [run_joined free, cut_last free]
    simp [Chunk.map, Buffers.step]
  | line l r free ih =>
    rw [cut_line free, List.map_append, run_append, run_joined free, List.map_cons, run_cons, ih]
    simp [Chunk.map, Buffers.step, single]

end cuts

end LineBuffers
