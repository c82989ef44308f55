import Mathlib.Algebra.Order.Group.Multiset
import Mathlib.Tactic.Abel
import Umari.TerminatingRuns

/-!
Workers that empty a shared stack of jobs. A worker holds one job at a time and takes it
through its stages; what it does to the shared world is seen by all. A proof outline says of
each job what holds at each of its stages and at its end; where the work on one job leaves
that alone for every other job, all of it holds in every state of every interleaving.
-/
namespace WorkQueues
open GuardedRuns TerminatingRuns
variable {W J L R A B : Type}

structure Pool (J L R : Type) where
  queue : List J
  held : List (Option (J × L))
  done : List (J × R)

/-- How one job is worked on; `other` is what happens to the world apart from the workers. -/
structure Work (W J L R A B : Type) where
  enter : J → L
  advance : W → J → L → A → Option (W × (L ⊕ R))
  other : W → B → Option W

structure State (W J L R : Type) where
  world : W
  pool : Pool J L R

inductive Turn (A B : Type) where
  | take (worker : Nat)
  | move (worker : Nat) (action : A)
  | other (event : B)

def start (world : W) (jobs : List J) (workers : Nat) : State W J L R :=
  ⟨world, ⟨jobs, List.replicate workers none, []⟩⟩

/-- An idle worker pops the last job; a busy one goes on with its own. -/
def step (work : Work W J L R A B) (s : State W J L R) : Turn A B → Option (State W J L R)
  | .take worker =>
    match s.pool.held[worker]?, s.pool.queue.getLast? with
    | some none, some job => some ⟨s.world, { s.pool with
        queue := s.pool.queue.dropLast
        held := s.pool.held.set worker (some (job, work.enter job)) }⟩
    | _, _ => none
  | .move worker action =>
    match s.pool.held[worker]? with
    | some (some (job, stage)) =>
      match work.advance s.world job stage action with
      | none => none
      | some (world, .inl next) => some ⟨world, { s.pool with
          held := s.pool.held.set worker (some (job, next)) }⟩
      | some (world, .inr result) => some ⟨world, { s.pool with
          held := s.pool.held.set worker none
          done := (job, result) :: s.pool.done }⟩
    | _ => none
  | .other event => (work.other s.world event).map fun world => ⟨world, s.pool⟩

def Pool.jobs (pool : Pool J L R) : List J :=
  pool.queue ++ pool.held.filterMap (Option.map Prod.fst) ++ pool.done.map Prod.fst

def Ended (pool : Pool J L R) : Prop := pool.queue = [] ∧ ∀ slot ∈ pool.held, slot = none

inductive Moved (work : Work W J L R A B) (s : State W J L R) : State W J L R → Prop where
  | took (job : J) (rest : List J) (before after : List (Option (J × L)))
      (queue : s.pool.queue = rest ++ [job]) (held : s.pool.held = before ++ none :: after) :
      Moved work s ⟨s.world, rest, before ++ some (job, work.enter job) :: after, s.pool.done⟩
  | advanced (job : J) (stage next : L) (action : A) (world : W)
      (before after : List (Option (J × L)))
      (held : s.pool.held = before ++ some (job, stage) :: after)
      (goes : work.advance s.world job stage action = some (world, .inl next)) :
      Moved work s ⟨world, s.pool.queue, before ++ some (job, next) :: after, s.pool.done⟩
  | finished (job : J) (stage : L) (result : R) (action : A) (world : W)
      (before after : List (Option (J × L)))
      (held : s.pool.held = before ++ some (job, stage) :: after)
      (goes : work.advance s.world job stage action = some (world, .inr result)) :
      Moved work s
        ⟨world, s.pool.queue, before ++ none :: after, (job, result) :: s.pool.done⟩
  | happened (event : B) (world : W) (goes : work.other s.world event = some world) :
      Moved work s ⟨world, s.pool⟩

theorem set_split {α : Type} {xs : List α} {i : Nat} {old : α} (new : α)
    (found : xs[i]? = some old) :
    ∃ before after, xs = before ++ old :: after ∧ xs.set i new = before ++ new :: after := by
  induction xs generalizing i with
  | nil => simp at found
  | cons x rest ih =>
    cases i with
    | zero =>
      obtain rfl : x = old := by simpa using found
      exact ⟨[], rest, rfl, rfl⟩
    | succ i =>
      obtain ⟨before, after, split, changed⟩ := ih (by simpa using found)
      refine ⟨x :: before, after, ?_, ?_⟩
      · rw [split, List.cons_append]
      · rw [List.set_cons_succ, changed, List.cons_append]

theorem moved_of_step {work : Work W J L R A B} {s t : State W J L R} {turn : Turn A B}
    (taken : step work s turn = some t) : Moved work s t := by
  cases turn with
  | take worker =>
    simp only [step] at taken
    split at taken
    · rename_i job slot last
      cases taken
      obtain ⟨before, after, held, changed⟩ := set_split (some (job, work.enter job)) slot
      rw [changed]
      exact Moved.took job _ before after (List.dropLast_append_getLast? job last).symm held
    · exact absurd taken (by simp)
  | move worker action =>
    simp only [step] at taken
    split at taken
    · rename_i job stage slot
      split at taken
      · exact absurd taken (by simp)
      · rename_i world next goes
        cases taken
        obtain ⟨before, after, held, changed⟩ := set_split (some (job, next)) slot
        rw [changed]
        exact Moved.advanced job stage next action world before after held goes
      · rename_i world result goes
        cases taken
        obtain ⟨before, after, held, changed⟩ := set_split none slot
        rw [changed]
        exact Moved.finished job stage result action world before after held goes
    · exact absurd taken (by simp)
  | other event =>
    simp only [step, Option.map_eq_some_iff] at taken
    obtain ⟨world, goes, rfl⟩ := taken
    exact Moved.happened event world goes

section jobs
variable {work : Work W J L R A B} {s t : State W J L R} {jobs : List J} {workers : Nat}

theorem jobs_moved (moved : Moved work s t) : t.pool.jobs.Perm s.pool.jobs := by
  rw [← Multiset.coe_eq_coe]
  cases moved with
  | took job rest before after queue held =>
    simp only [Pool.jobs, queue, held, List.filterMap_append, List.filterMap_cons, Option.map_some,
      Option.map_none, ← Multiset.coe_add, ← Multiset.cons_coe, ← Multiset.singleton_add,
      Multiset.coe_nil]
    abel
  | advanced job stage next action world before after held goes =>
    simp [Pool.jobs, held]
  | finished job stage result action world before after held goes =>
    simp only [Pool.jobs, held, List.filterMap_append, List.filterMap_cons, Option.map_some,
      Option.map_none, List.map_cons, ← Multiset.coe_add, ← Multiset.cons_coe,
      ← Multiset.singleton_add]
    abel
  | happened event world goes => rfl

theorem jobs_kept {world : W} {turns : List (Turn A B)}
    (run : exec (step work) (start world jobs workers) turns = some s) :
    s.pool.jobs.Perm jobs := by
  have from_start : (start world jobs workers : State W J L R).pool.jobs.Perm jobs := by
    simp [start, Pool.jobs]
  have preserved : ∀ {s t : State W J L R} {turn : Turn A B}, s.pool.jobs.Perm jobs →
      step work s turn = some t → t.pool.jobs.Perm jobs :=
    fun kept taken => (jobs_moved (moved_of_step taken)).trans kept
  exact invariant preserved from_start run

theorem ended_done {world : W} {turns : List (Turn A B)}
    (run : exec (step work) (start world jobs workers) turns = some s) (ended : Ended s.pool) :
    (s.pool.done.map Prod.fst).Perm jobs := by
  have kept := jobs_kept run
  have idle : s.pool.held.filterMap (Option.map Prod.fst) = [] := by
    rw [List.filterMap_eq_nil_iff]
    intro slot member
    rw [ended.2 slot member]
    rfl
  rwa [Pool.jobs, ended.1, idle, List.append_nil, List.nil_append] at kept

end jobs

/-- What holds of a job while it waits, at each of its stages and once it is finished, and
    that no turn of another worker and nothing else changes that. Jobs are told apart by
    `Apart`; a job that waits has no stage yet. -/
structure Outline (work : Work W J L R A B) where
  Apart : J → J → Prop
  symm : ∀ {i j}, Apart i j → Apart j i
  Inv : W → Prop
  Holds : W → J → Option L → Prop
  Leaves : W → J → R → Prop
  enters : ∀ {w j}, Inv w → Holds w j none → Holds w j (some (work.enter j))
  advances : ∀ {w j stage action w' next}, Inv w → Holds w j (some stage) →
    work.advance w j stage action = some (w', .inl next) → Inv w' ∧ Holds w' j (some next)
  finishes : ∀ {w j stage action w' result}, Inv w → Holds w j (some stage) →
    work.advance w j stage action = some (w', .inr result) → Inv w' ∧ Leaves w' j result
  calm : ∀ {w j stage action w' next i}, Inv w → Holds w j (some stage) → Apart j i →
    work.advance w j stage action = some (w', next) →
      (∀ other, Holds w i other → Holds w' i other) ∧
        ∀ result, Leaves w i result → Leaves w' i result
  undisturbed : ∀ {w event w'}, Inv w → work.other w event = some w' →
    Inv w' ∧ ∀ i, (∀ other, Holds w i other → Holds w' i other) ∧
      ∀ result, Leaves w i result → Leaves w' i result

namespace Outline
variable {work : Work W J L R A B}

structure Kept (outline : Outline work) (s : State W J L R) : Prop where
  apart : s.pool.jobs.Pairwise outline.Apart
  inv : outline.Inv s.world
  queued : ∀ job ∈ s.pool.queue, outline.Holds s.world job none
  held : ∀ job stage, some (job, stage) ∈ s.pool.held → outline.Holds s.world job (some stage)
  done : ∀ job result, (job, result) ∈ s.pool.done → outline.Leaves s.world job result

theorem apart_at_work (outline : Outline work) {s : State W J L R}
    (apart : s.pool.jobs.Pairwise outline.Apart) {job : J} {stage : L}
    {before after : List (Option (J × L))}
    (held : s.pool.held = before ++ some (job, stage) :: after) :
    (∀ i ∈ s.pool.queue, outline.Apart job i) ∧
      (∀ i other, some (i, other) ∈ before ++ after → outline.Apart job i) ∧
      ∀ i result, (i, result) ∈ s.pool.done → outline.Apart job i := by
  have moved : s.pool.jobs.Perm (job :: (s.pool.queue ++
      (before ++ after).filterMap (Option.map Prod.fst) ++ s.pool.done.map Prod.fst)) := by
    rw [← Multiset.coe_eq_coe]
    simp only [Pool.jobs, held, List.filterMap_append, List.filterMap_cons, Option.map_some,
      ← Multiset.coe_add, ← Multiset.cons_coe, ← Multiset.singleton_add]
    abel
  have each := (List.pairwise_cons.mp (moved.pairwise apart outline.symm)).1
  refine ⟨?_, ?_, ?_⟩
  · intro i member
    exact each i (List.mem_append_left _ (List.mem_append_left _ member))
  · intro i other member
    refine each i (List.mem_append_left _ (List.mem_append_right _ ?_))
    exact List.mem_filterMap.mpr ⟨some (i, other), member, rfl⟩
  · intro i result member
    exact each i (List.mem_append_right _ (List.mem_map.mpr ⟨(i, result), member, rfl⟩))

theorem others_kept (outline : Outline work) {s : State W J L R} (kept : outline.Kept s) {job : J}
    {stage : L} {action : A} {world : W} {next : L ⊕ R} {before after : List (Option (J × L))}
    (held : s.pool.held = before ++ some (job, stage) :: after)
    (goes : work.advance s.world job stage action = some (world, next)) :
    (∀ i ∈ s.pool.queue, outline.Holds world i none) ∧
      (∀ i other, some (i, other) ∈ before ++ after → outline.Holds world i (some other)) ∧
      ∀ i result, (i, result) ∈ s.pool.done → outline.Leaves world i result := by
  have here := kept.held job stage (by simp [held])
  obtain ⟨waiting, others, dones⟩ := outline.apart_at_work kept.apart held
  refine ⟨?_, ?_, ?_⟩
  · intro i member
    exact (outline.calm kept.inv here (waiting i member) goes).1 none (kept.queued i member)
  · intro i other member
    have there : some (i, other) ∈ s.pool.held := by
      rw [held]
      rcases List.mem_append.mp member with early | late
      · exact List.mem_append_left _ early
      · exact List.mem_append_right _ (List.mem_cons_of_mem _ late)
    exact (outline.calm kept.inv here (others i other member) goes).1 (some other)
      (kept.held i other there)
  · intro i result member
    exact (outline.calm kept.inv here (dones i result member) goes).2 result
      (kept.done i result member)

theorem kept_step (outline : Outline work) {s t : State W J L R} {turn : Turn A B}
    (kept : outline.Kept s) (taken : step work s turn = some t) : outline.Kept t := by
  have moved := moved_of_step taken
  have apart : t.pool.jobs.Pairwise outline.Apart :=
    (jobs_moved moved).symm.pairwise kept.apart outline.symm
  cases moved with
  | took job rest before after queue held =>
    refine ⟨apart, kept.inv, ?_, ?_, kept.done⟩
    · exact fun i member => kept.queued i (queue ▸ List.mem_append_left _ member)
    intro i other member
    rcases List.mem_append.mp member with early | late
    · exact kept.held i other (by simp [held, early])
    · rcases List.mem_cons.mp late with same | late
      · obtain ⟨rfl, rfl⟩ := Prod.mk.inj (Option.some.inj same)
        exact outline.enters kept.inv (kept.queued i (by simp [queue]))
      · exact kept.held i other (by simp [held, late])
  | advanced job stage next action world before after held goes =>
    obtain ⟨waiting, others, dones⟩ := outline.others_kept kept held goes
    obtain ⟨inv, holds⟩ := outline.advances kept.inv (kept.held job stage (by simp [held])) goes
    refine ⟨apart, inv, waiting, ?_, dones⟩
    intro i other member
    rcases List.mem_append.mp member with early | late
    · exact others i other (List.mem_append_left _ early)
    · rcases List.mem_cons.mp late with same | late
      · obtain ⟨rfl, rfl⟩ := Prod.mk.inj (Option.some.inj same)
        exact holds
      · exact others i other (List.mem_append_right _ late)
  | finished job stage result action world before after held goes =>
    obtain ⟨waiting, others, dones⟩ := outline.others_kept kept held goes
    obtain ⟨inv, leaves⟩ := outline.finishes kept.inv (kept.held job stage (by simp [held])) goes
    refine ⟨apart, inv, waiting, ?_, ?_⟩
    · intro i other member
      rcases List.mem_append.mp member with early | late
      · exact others i other (List.mem_append_left _ early)
      · rcases List.mem_cons.mp late with same | late
        · exact absurd same (by simp)
        · exact others i other (List.mem_append_right _ late)
    · intro i other member
      rcases List.mem_cons.mp member with same | earlier
      · obtain ⟨rfl, rfl⟩ := Prod.mk.inj same
        exact leaves
      · exact dones i other earlier
  | happened event world goes =>
    obtain ⟨inv, same⟩ := outline.undisturbed kept.inv goes
    refine ⟨apart, inv, ?_, ?_, ?_⟩
    · exact fun i member => (same i).1 none (kept.queued i member)
    · exact fun i other member => (same i).1 (some other) (kept.held i other member)
    · exact fun i result member => (same i).2 result (kept.done i result member)

theorem kept_run (outline : Outline work) {world : W} {jobs : List J} {workers : Nat}
    {turns : List (Turn A B)} {s : State W J L R} (apart : jobs.Pairwise outline.Apart)
    (inv : outline.Inv world) (waiting : ∀ job ∈ jobs, outline.Holds world job none)
    (run : exec (step work) (start world jobs workers) turns = some s) : outline.Kept s := by
  refine invariant (fun kept taken => outline.kept_step kept taken) ⟨?_, inv, waiting, ?_, ?_⟩ run
  · simpa [start, Pool.jobs] using apart
  · intro job stage member
    simp [start] at member
  · intro job result member
    simp [start] at member

end Outline

end WorkQueues
