import Umari.GuardedRuns
import Umari.ModuleActor
import Umari.SnapshotStores
import Umari.StateDatabases

/-!
Sequential module actors that overlap on one state database. Each has a connection of
its own, with its transaction open all the time, and remembers the `last_position` it
read at its start or stored itself. The statements of all of them interleave; between
the update of the cursor and its commit lies one step as well. A write that the guest
makes is recorded with the event it was made for, and is committed with its transaction
or not at all.
-/
namespace UmariConcurrentProjectors
open PositionedLogs GuardedRuns SnapshotStores
open UmariEventStore UmariStateDatabases UmariModuleActor
variable {I T : Type}

/-- A write of the guest, with the position of the event it handles; the constructor's
    writes are for no event. -/
structure Write (T : Type) where
  event : Option Nat
  change : T → T

inductive Stage where
  | opening
  | constructing
  | waiting
  | handling (rest : List (Nat × Event))
  | cursorSet

/-- `pending` holds the writes of the open transaction. -/
structure Actor (T : Type) where
  query : Query
  lastPosition : Option Nat
  cursor : Nat
  stage : Stage
  pending : List (Write T)

/-- A committed transaction; that of a batch moved the stored position. -/
structure Commit (I T : Type) where
  actor : I
  moved : Option (Option Nat × Nat)
  writes : List (Write T)

structure System (I T : Type) where
  log : List Event
  store : Store I (Database T)
  actors : I → Option (Actor T)
  commits : List (Commit I T)

/-- `tolerated`: the guest handles the error of a refused statement. -/
inductive Action (I T : Type) where
  | append (events : List Event)
  | start (i : I) (name : String) (version : Version) (query : Query)
  | readPosition (i : I)
  | guestRead (i : I)
  | guestWrite (i : I) (change : T → T) (tolerated : Bool)
  | constructed (i : I) (begins : Bool)
  | nextBatch (i : I) (upto : Nat)
  | handled (i : I)
  | setCursor (i : I)
  | commit (i : I) (begins : Bool)
  | crash (i : I)

def initial (db : Database T) (log : List Event) : System I T :=
  ⟨log, Store.new db, fun _ => none, []⟩

/-- Whose writes the guest's statements are now; `none` while no guest code runs. -/
def Stage.source : Stage → Option (Option Nat)
  | .constructing => some none
  | .waiting => some none
  | .handling (entry :: _) => some (some entry.1)
  | _ => none

def written (writes : List (Write T)) (tables : T) : T :=
  writes.foldl (fun tables write => write.change tables) tables

def changeTables (change : T → T) (db : Database T) : Database T :=
  { db with tables := change db.tables }

section steps
variable [DecidableEq I]

def setActor (s : System I T) (i : I) (a : Option (Actor T)) : System I T :=
  { s with actors := Function.update s.actors i a }

def stop (s : System I T) (i : I) : System I T :=
  { setActor s i none with store := s.store.rollback i }

/-- Opening the file up to the insert into `module_meta`. A start with another major
    version replaces the file, so it is no start on this database. -/
def startStep (s : System I T) (i : I) (name : String) (version : Version) (query : Query) :
    Option (System I T) :=
  if majorChanged s.store.committed.row version then none
  else
    match s.store.autocommit fun db => { db with row := some (upsertMeta name version db.row) } with
    | none => some s
    | some store => some { setActor s i (some ⟨query, none, 0, .opening, []⟩) with store := store }

def guestWriteStep (s : System I T) (i : I) (a : Actor T) (event : Option Nat) (change : T → T)
    (tolerated : Bool) : System I T :=
  match s.store.write i (changeTables change) with
  | some store =>
    { setActor s i (some { a with pending := a.pending ++ [⟨event, change⟩] }) with
      store := store }
  | none => if tolerated then s else stop s i

/-- `COMMIT; BEGIN`: a commit that is not followed by a transaction ends the actor. -/
def commitStep (s : System I T) (i : I) (a after : Actor T) (moved : Option (Option Nat × Nat))
    (begins : Bool) : System I T :=
  { setActor s i (if begins then some after else none) with
    store := s.store.commit i
    commits := s.commits ++ [⟨i, moved, a.pending⟩] }

/-- The end of a batch: without progress nothing is stored. -/
def setCursorStep (s : System I T) (i : I) (a : Actor T) : System I T :=
  if a.lastPosition = some a.cursor then setActor s i (some { a with stage := .waiting })
  else
    match updateLastPosition a.cursor a.lastPosition (s.store.view i).row with
    | none => stop s i
    | some row =>
      match s.store.write i fun db => { db with row := row } with
      | none => stop s i
      | some store => { setActor s i (some { a with stage := .cursorSet }) with store := store }

def step (s : System I T) : Action I T → Option (System I T)
  | .append events => some { s with log := s.log ++ events }
  | .start i name version query =>
    match s.actors i with
    | some _ => none
    | none => startStep s i name version query
  | .readPosition i =>
    match s.actors i with
    | none => none
    | some a =>
      match a.stage with
      | .opening =>
        let last := storedPosition s.store.committed.row
        some (setActor s i (some { a with
          lastPosition := last
          cursor := resumePosition last
          stage := .constructing }))
      | _ => none
  | .guestRead i =>
    match s.actors i with
    | none => none
    | some a =>
      match a.stage.source with
      | none => none
      | some _ => some { s with store := s.store.read i }
  | .guestWrite i change tolerated =>
    match s.actors i with
    | none => none
    | some a =>
      match a.stage.source with
      | none => none
      | some event => some (guestWriteStep s i a event change tolerated)
  | .constructed i begins =>
    match s.actors i with
    | none => none
    | some a =>
      match a.stage with
      | .constructing =>
        some (commitStep s i a { a with stage := .waiting, pending := [] } none begins)
      | _ => none
  | .nextBatch i upto =>
    match s.actors i with
    | none => none
    | some a =>
      match a.stage with
      | .waiting =>
        if a.cursor ≤ upto ∧ upto ≤ s.log.length then
          let result := Subscription.nextBatch ⟨a.query, a.cursor⟩ s.log upto
          some (setActor s i (some { a with
            cursor := result.2.position
            stage := .handling result.1 }))
        else none
      | _ => none
  | .handled i =>
    match s.actors i with
    | none => none
    | some a =>
      match a.stage with
      | .handling (_ :: rest) => some (setActor s i (some { a with stage := .handling rest }))
      | _ => none
  | .setCursor i =>
    match s.actors i with
    | none => none
    | some a =>
      match a.stage with
      | .handling [] => some (setCursorStep s i a)
      | _ => none
  | .commit i begins =>
    match s.actors i with
    | none => none
    | some a =>
      match a.stage with
      | .cursorSet =>
        some (commitStep s i a
          { a with lastPosition := some a.cursor, stage := .waiting, pending := [] }
          (some (a.lastPosition, a.cursor)) begins)
      | _ => none
  | .crash i =>
    match s.actors i with
    | none => none
    | some _ => some (stop s i)

inductive Moved (s : System I T) : System I T → Prop where
  | appended (events : List Event) : Moved s { s with log := s.log ++ events }
  | started {i : I} {name : String} {version : Version} {query : Query} {t : System I T}
      (done : startStep s i name version query = some t) : Moved s t
  | positionRead {i : I} {a : Actor T} (live : s.actors i = some a)
      (stage : a.stage = .opening) :
      Moved s (setActor s i (some { a with
        lastPosition := storedPosition s.store.committed.row
        cursor := resumePosition (storedPosition s.store.committed.row)
        stage := .constructing }))
  | guestRead (i : I) : Moved s { s with store := s.store.read i }
  | guestWrote {i : I} {a : Actor T} {event : Option Nat} (live : s.actors i = some a)
      (runs : a.stage.source = some event) (change : T → T) (tolerated : Bool) :
      Moved s (guestWriteStep s i a event change tolerated)
  | constructed {i : I} {a : Actor T} (live : s.actors i = some a)
      (stage : a.stage = .constructing) (begins : Bool) :
      Moved s (commitStep s i a { a with stage := .waiting, pending := [] } none begins)
  | fetched {i : I} {a : Actor T} {upto : Nat} (live : s.actors i = some a)
      (stage : a.stage = .waiting) (forward : a.cursor ≤ upto) (stored : upto ≤ s.log.length) :
      Moved s (setActor s i (some { a with
        cursor := (Subscription.nextBatch ⟨a.query, a.cursor⟩ s.log upto).2.position
        stage := .handling (Subscription.nextBatch ⟨a.query, a.cursor⟩ s.log upto).1 }))
  | handled {i : I} {a : Actor T} {entry : Nat × Event} {rest : List (Nat × Event)}
      (live : s.actors i = some a) (stage : a.stage = .handling (entry :: rest)) :
      Moved s (setActor s i (some { a with stage := .handling rest }))
  | cursorSet {i : I} {a : Actor T} (live : s.actors i = some a)
      (stage : a.stage = .handling []) :
      Moved s (setCursorStep s i a)
  | committed {i : I} {a : Actor T} (live : s.actors i = some a)
      (stage : a.stage = .cursorSet) (begins : Bool) :
      Moved s (commitStep s i a
        { a with lastPosition := some a.cursor, stage := .waiting, pending := [] }
        (some (a.lastPosition, a.cursor)) begins)
  | crashed (i : I) : Moved s (stop s i)

def Action.running : Action I T → Option I
  | .append _ => none
  | .start _ _ _ _ => none
  | .readPosition i => some i
  | .guestRead i => some i
  | .guestWrite i _ _ => some i
  | .constructed i _ => some i
  | .nextBatch i _ => some i
  | .handled i => some i
  | .setCursor i => some i
  | .commit i _ => some i
  | .crash i => some i

variable {s t : System I T}

theorem live_of_step {action : Action I T} {i : I} (taken : step s action = some t)
    (runs : action.running = some i) : ∃ a, s.actors i = some a := by
  cases live : s.actors i with
  | some a => exact ⟨a, rfl⟩
  | none =>
    cases action with
    | append => exact absurd runs (by simp [Action.running])
    | start => exact absurd runs (by simp [Action.running])
    | _ =>
      cases runs
      simp [step, live] at taken

theorem moved_of_step {action : Action I T} (taken : step s action = some t) : Moved s t := by
  cases action with
  | append events =>
    cases taken
    exact Moved.appended events
  | start i name version query =>
    cases live : s.actors i with
    | some a => simp [step, live] at taken
    | none =>
      simp only [step, live] at taken
      exact Moved.started taken
  | readPosition i =>
    obtain ⟨a, live⟩ := live_of_step taken rfl
    cases stage : a.stage with
    | opening =>
      simp only [step, live, stage, Option.some.injEq] at taken
      rw [← taken]
      exact Moved.positionRead live stage
    | _ => simp [step, live, stage] at taken
  | guestRead i =>
    obtain ⟨a, live⟩ := live_of_step taken rfl
    cases runs : a.stage.source with
    | none => simp [step, live, runs] at taken
    | some event =>
      simp only [step, live, runs, Option.some.injEq] at taken
      rw [← taken]
      exact Moved.guestRead i
  | guestWrite i change tolerated =>
    obtain ⟨a, live⟩ := live_of_step taken rfl
    cases runs : a.stage.source with
    | none => simp [step, live, runs] at taken
    | some event =>
      simp only [step, live, runs, Option.some.injEq] at taken
      rw [← taken]
      exact Moved.guestWrote live runs change tolerated
  | constructed i begins =>
    obtain ⟨a, live⟩ := live_of_step taken rfl
    cases stage : a.stage with
    | constructing =>
      simp only [step, live, stage, Option.some.injEq] at taken
      rw [← taken]
      exact Moved.constructed live stage begins
    | _ => simp [step, live, stage] at taken
  | nextBatch i upto =>
    obtain ⟨a, live⟩ := live_of_step taken rfl
    cases stage : a.stage with
    | waiting =>
      simp only [step, live, stage] at taken
      obtain ⟨bounds, fetched⟩ := Option.ite_none_right_eq_some.mp taken
      rw [← Option.some.inj fetched]
      exact Moved.fetched live stage bounds.1 bounds.2
    | _ => simp [step, live, stage] at taken
  | handled i =>
    obtain ⟨a, live⟩ := live_of_step taken rfl
    simp only [step, live] at taken
    split at taken
    · rename_i entry rest stage
      rw [← Option.some.inj taken]
      exact Moved.handled live stage
    · exact absurd taken (by simp)
  | setCursor i =>
    obtain ⟨a, live⟩ := live_of_step taken rfl
    simp only [step, live] at taken
    split at taken
    · rename_i stage
      rw [← Option.some.inj taken]
      exact Moved.cursorSet live stage
    · exact absurd taken (by simp)
  | commit i begins =>
    obtain ⟨a, live⟩ := live_of_step taken rfl
    cases stage : a.stage with
    | cursorSet =>
      simp only [step, live, stage, Option.some.injEq] at taken
      rw [← taken]
      exact Moved.committed live stage begins
    | _ => simp [step, live, stage] at taken
  | crash i =>
    obtain ⟨a, live⟩ := live_of_step taken rfl
    simp only [step, live, Option.some.injEq] at taken
    rw [← taken]
    exact Moved.crashed i

end steps
/-- Commits in a row: a batch starts from the position that is stored, stores a later one,
    and writes for events between the two only. -/
inductive Chained (first : Option Nat) : List (Commit I T) → Option Nat → Prop where
  | nil : Chained first [] first
  | constructed {commits : List (Commit I T)} {last : Option Nat} {c : Commit I T} :
      Chained first commits last → c.moved = none → (∀ w ∈ c.writes, w.event = none) →
      Chained first (commits ++ [c]) last
  | batch {commits : List (Commit I T)} {last : Option Nat} {stored : Nat} {c : Commit I T} :
      Chained first commits last → c.moved = some (last, stored) → last ≠ some stored →
      resumePosition last ≤ stored →
      (∀ w ∈ c.writes, ∀ x, w.event = some x → resumePosition last < x ∧ x ≤ stored) →
      Chained first (commits ++ [c]) (some stored)

def starts (commits : List (Commit I T)) : List (Option Nat) :=
  commits.filterMap fun c => c.moved.map Prod.fst

/-- No two batches were committed from one position, and no two transactions have writes
    for one event. The tables hold what was committed and nothing else. An actor from
    whose position a batch was committed by another stops when it comes to its cursor. -/
structure AppliedOnce [DecidableEq I] (db : Database T) (s : System I T) : Prop where
  once : (starts s.commits).Nodup
  apart : s.commits.Pairwise fun c d =>
    ∀ x, ∀ w ∈ c.writes, w.event = some x → ∀ v ∈ d.writes, v.event ≠ some x
  contents : s.store.committed.tables = written (s.commits.flatMap Commit.writes) db.tables
  overtaken : ∀ i a, s.actors i = some a → a.stage ≠ .opening →
    a.lastPosition ∈ starts s.commits → a.stage ≠ .cursorSet ∧
      ∀ t, step s (.setCursor i) = some t → a.lastPosition ≠ some a.cursor → t = stop s i

section chains
variable {first last : Option Nat} {commits : List (Commit I T)}

def rank : Option Nat → Nat
  | none => 0
  | some n => n + 1

theorem rank_lt {last : Option Nat} {stored : Nat} (moved : last ≠ some stored)
    (forward : resumePosition last ≤ stored) : rank last < rank (some stored) := by
  cases last with
  | none => exact Nat.succ_pos stored
  | some n =>
    have differs : n ≠ stored := fun same => moved (congrArg some same)
    simp only [resumePosition, Option.getD_some] at forward
    simp only [rank]
    omega

theorem mem_starts {c : Commit I T} {p : Option Nat} :
    p ∈ starts (commits ++ [c]) ↔ p ∈ starts commits ∨ ∃ stored, c.moved = some (p, stored) := by
  simp [starts, List.filterMap_append]

theorem starts_before (chain : Chained first commits last) :
    ∀ p ∈ starts commits, rank p < rank last := by
  induction chain with
  | nil => exact fun p member => absurd member List.not_mem_nil
  | constructed _ unmoved _ ih =>
    intro p member
    rcases mem_starts.mp member with old | ⟨stored, moved⟩
    · exact ih p old
    · rw [unmoved] at moved
      exact absurd moved (by simp)
  | batch _ moved differs forward _ ih =>
    have later := rank_lt differs forward
    intro p member
    rcases mem_starts.mp member with old | ⟨stored, again⟩
    · exact Nat.lt_trans (ih p old) later
    · rw [moved] at again
      obtain ⟨rfl, _⟩ := Prod.mk.inj (Option.some.inj again)
      exact later

theorem starts_nodup (chain : Chained first commits last) : (starts commits).Nodup := by
  induction chain with
  | nil => exact List.nodup_nil
  | constructed _ unmoved _ ih =>
    simpa [starts, List.filterMap_append, unmoved] using ih
  | batch before moved _ _ _ ih =>
    rw [starts, List.filterMap_append]
    apply List.nodup_append.mpr
    refine ⟨ih, by simp [moved], ?_⟩
    intro p old q new same
    have strict := starts_before before p old
    rw [same] at strict
    simp only [List.filterMap_cons, moved, Option.map_some, List.filterMap_nil,
      List.mem_singleton] at new
    rw [new] at strict
    exact Nat.lt_irrefl _ strict

theorem events_below (chain : Chained first commits last) :
    ∀ c ∈ commits, ∀ w ∈ c.writes, ∀ x, w.event = some x → x ≤ resumePosition last := by
  induction chain with
  | nil => exact fun c member => absurd member List.not_mem_nil
  | constructed _ _ plain ih =>
    intro c member w wrote x tagged
    rcases List.mem_append.mp member with old | new
    · exact ih c old w wrote x tagged
    · obtain rfl := List.mem_singleton.mp new
      rw [plain w wrote] at tagged
      exact absurd tagged (by simp)
  | batch _ _ _ forward within ih =>
    intro c member w wrote x tagged
    rcases List.mem_append.mp member with old | new
    · exact Nat.le_trans (ih c old w wrote x tagged) forward
    · obtain rfl := List.mem_singleton.mp new
      exact (within w wrote x tagged).2

theorem events_apart (chain : Chained first commits last) :
    commits.Pairwise fun c d =>
      ∀ x, ∀ w ∈ c.writes, w.event = some x → ∀ v ∈ d.writes, v.event ≠ some x := by
  induction chain with
  | nil => exact List.Pairwise.nil
  | constructed _ _ plain ih =>
    apply List.pairwise_append.mpr
    refine ⟨ih, List.pairwise_singleton _ _, ?_⟩
    intro c _ d last x w _ _ v wrote
    obtain rfl := List.mem_singleton.mp last
    rw [plain v wrote]
    simp
  | batch before _ _ _ within ih =>
    apply List.pairwise_append.mpr
    refine ⟨ih, List.pairwise_singleton _ _, ?_⟩
    intro c old d last x w wrote tagged v other again
    obtain rfl := List.mem_singleton.mp last
    have below := events_below before c old w wrote x tagged
    have above := (within v other x again).1
    omega

end chains

section invariant

/-- What an actor has in hand lies between the position it started from and its cursor. -/
structure InRange (a : Actor T) : Prop where
  forward : resumePosition a.lastPosition ≤ a.cursor
  starting : a.stage = .constructing → a.cursor = resumePosition a.lastPosition
  batch : ∀ rest, a.stage = .handling rest → ∀ entry ∈ rest,
    resumePosition a.lastPosition < entry.1 ∧ entry.1 ≤ a.cursor
  pending : ∀ w ∈ a.pending, ∀ x, w.event = some x →
    resumePosition a.lastPosition < x ∧ x ≤ a.cursor
  opening : a.stage = .opening → a.pending = []

/-- A writer works on what is committed, with its own pending writes and its cursor. -/
structure Holds (committed working : Database T) (a : Actor T) : Prop where
  tables : working.tables = written a.pending committed.tables
  row : a.stage ≠ .cursorSet → working.row = committed.row
  moved : a.stage = .cursorSet → storedPosition committed.row = a.lastPosition ∧
    storedPosition working.row = some a.cursor ∧ a.lastPosition ≠ some a.cursor

structure Inv (db : Database T) (s : System I T) : Prop where
  chain : Chained (storedPosition db.row) s.commits (storedPosition s.store.committed.row)
  contents : s.store.committed.tables = written (s.commits.flatMap Commit.writes) db.tables
  ranges : ∀ i a, s.actors i = some a → InRange a
  idle : ∀ i a, s.actors i = some a → (∀ w, s.store.writer = some w → w.owner ≠ i) →
    a.pending = [] ∧ a.stage ≠ .cursorSet
  held : ∀ w, s.store.writer = some w → ∃ a, s.actors w.owner = some a ∧
    Holds s.store.committed w.working a

theorem inRange_resting {a : Actor T} (forward : resumePosition a.lastPosition ≤ a.cursor)
    (pending : ∀ w ∈ a.pending, ∀ x, w.event = some x →
      resumePosition a.lastPosition < x ∧ x ≤ a.cursor)
    (resting : a.stage = .waiting ∨ a.stage = .cursorSet) : InRange a := by
  rcases resting with stage | stage
  · exact ⟨forward, by simp [stage], by simp [stage], pending, by simp [stage]⟩
  · exact ⟨forward, by simp [stage], by simp [stage], pending, by simp [stage]⟩

theorem inv_initial (db : Database T) (log : List Event) :
    Inv db (initial db log : System I T) where
  chain := Chained.nil
  contents := rfl
  ranges := fun _ _ live => absurd live (by simp [initial])
  idle := fun _ _ live => absurd live (by simp [initial])
  held := fun _ writing => absurd writing (by simp [initial])

variable [DecidableEq I] {db : Database T} {s t : System I T} {i : I} {a b : Actor T}

theorem setActor_same {a : Option (Actor T)} : (setActor s i a).actors i = a :=
  Function.update_self _ _ _

theorem setActor_other {a : Option (Actor T)} {j : I} (other : j ≠ i) :
    (setActor s i a).actors j = s.actors j := Function.update_of_ne other _ _

theorem setActor_found {j : I} {put : Option (Actor T)}
    (found : (setActor s i put).actors j = some a) :
    (j = i ∧ put = some a) ∨ (j ≠ i ∧ s.actors j = some a) := by
  by_cases own : j = i
  · subst own
    exact Or.inl ⟨rfl, setActor_same.symm.trans found⟩
  · exact Or.inr ⟨own, (setActor_other own).symm.trans found⟩

theorem inv_setActor (inv : Inv db s) (live : s.actors i = some a) (range : InRange b)
    (same : b.pending = a.pending) (before : a.stage ≠ .cursorSet) (after : b.stage ≠ .cursorSet) :
    Inv db (setActor s i (some b)) where
  chain := inv.chain
  contents := inv.contents
  ranges := by
    intro j c found
    rcases setActor_found found with ⟨_, put⟩ | ⟨_, old⟩
    · cases put
      exact range
    · exact inv.ranges j c old
  idle := by
    intro j c found reader
    rcases setActor_found found with ⟨rfl, put⟩ | ⟨_, old⟩
    · cases put
      exact ⟨same.trans (inv.idle j a live reader).1, after⟩
    · exact inv.idle j c old reader
  held := by
    intro w writing
    obtain ⟨c, found, holds⟩ := inv.held w writing
    by_cases own : w.owner = i
    · rw [own] at found ⊢
      cases live.symm.trans found
      refine ⟨b, setActor_same, ?_, fun _ => holds.row before, fun moved => absurd moved after⟩
      rw [same]
      exact holds.tables
    · exact ⟨c, (setActor_other own).trans found, holds⟩

theorem inv_stop (inv : Inv db s) (i : I) : Inv db (stop s i) where
  chain := inv.chain
  contents := inv.contents
  ranges := by
    intro j c found
    rcases setActor_found (s := s) found with ⟨_, put⟩ | ⟨_, old⟩
    · exact absurd put (by simp)
    · exact inv.ranges j c old
  idle := by
    intro j c found reader
    rcases setActor_found (s := s) found with ⟨_, put⟩ | ⟨own, old⟩
    · exact absurd put (by simp)
    · apply inv.idle j c old
      intro w writing same
      exact reader w (Store.rollback_writer.mpr ⟨writing, same ▸ own⟩) same
  held := by
    intro w writing
    obtain ⟨before, other⟩ := Store.rollback_writer.mp writing
    obtain ⟨c, found, holds⟩ := inv.held w before
    exact ⟨c, (setActor_other other).trans found, holds⟩

theorem inv_start {name : String} {version : Version} {query : Query} (inv : Inv db s)
    (started : startStep s i name version query = some t) : Inv db t := by
  unfold startStep at started
  by_cases changed : majorChanged s.store.committed.row version = true
  · rw [if_pos changed] at started
    exact absurd started (by simp)
  rw [if_neg changed] at started
  split at started
  · cases started
    exact inv
  · rename_i store done
    cases started
    obtain ⟨free, freeAfter, committed⟩ := Store.autocommit_some done
    constructor
    · dsimp only
      rw [committed, upsertMeta_position]
      exact inv.chain
    · dsimp only
      rw [committed]
      exact inv.contents
    · intro j c found
      rcases setActor_found (s := s) found with ⟨_, put⟩ | ⟨_, old⟩
      · cases put
        exact ⟨Nat.le_refl _, fun stage => absurd stage (by simp),
          fun rest stage => absurd stage (by simp),
          fun w wrote => absurd wrote List.not_mem_nil, fun _ => rfl⟩
      · exact inv.ranges j c old
    · intro j c found _
      rcases setActor_found (s := s) found with ⟨_, put⟩ | ⟨_, old⟩
      · cases put
        exact ⟨rfl, by simp⟩
      · apply inv.idle j c old
        exact fun w writing => absurd writing (by simp [free])
    · intro w writing
      dsimp only at writing
      exact absurd writing (by simp [freeAfter])

theorem view_holds (inv : Inv db s) (live : s.actors i = some a) (stage : a.stage ≠ .cursorSet)
    (may : s.store.mayWrite i = true) :
    (s.store.view i).tables = written a.pending s.store.committed.tables ∧
      (s.store.view i).row = s.store.committed.row ∧
      ∀ w, s.store.writer = some w → w.owner = i := by
  cases writing : s.store.writer with
  | none =>
    rw [Store.view_latest may writing]
    obtain ⟨nothing, _⟩ := inv.idle i a live (by simp [writing])
    rw [nothing]
    exact ⟨rfl, rfl, fun w found => absurd found (by simp)⟩
  | some w =>
    have own := (Store.mayWrite_writer writing).mp may
    obtain ⟨c, found, holds⟩ := inv.held w writing
    subst own
    cases live.symm.trans found
    rw [Store.view_writer writing]
    exact ⟨holds.tables, holds.row stage, fun v same => by rw [Option.some.inj same]⟩

theorem inv_write {f : Database T → Database T} {store : Store I (Database T)} (inv : Inv db s)
    (live : s.actors i = some a) (stage : a.stage ≠ .cursorSet)
    (wrote : s.store.write i f = some store) (range : InRange b)
    (holds : Holds s.store.committed (f (s.store.view i)) b) :
    Inv db { setActor s i (some b) with store := store } := by
  obtain ⟨may, rfl⟩ := Store.write_some wrote
  obtain ⟨_, _, own⟩ := view_holds inv live stage may
  constructor
  · exact inv.chain
  · exact inv.contents
  · intro j c found
    rcases setActor_found (s := s) found with ⟨_, put⟩ | ⟨_, old⟩
    · cases put
      exact range
    · exact inv.ranges j c old
  · intro j c found reader
    have other : j ≠ i := fun same => reader _ rfl same.symm
    apply inv.idle j c ((setActor_other other).symm.trans found)
    intro w writing
    rw [own w writing]
    exact Ne.symm other
  · intro w writing
    cases writing
    exact ⟨b, setActor_same, holds⟩

theorem commit_cases (inv : Inv db s) (live : s.actors i = some a) :
    (∃ working, Holds s.store.committed working a ∧ (s.store.commit i).committed = working ∧
      (s.store.commit i).writer = none ∧ ∃ w, s.store.writer = some w ∧ w.owner = i) ∨
    (a.pending = [] ∧ a.stage ≠ .cursorSet ∧
      (s.store.commit i).committed = s.store.committed ∧
      (s.store.commit i).writer = s.store.writer ∧
      ∀ w, s.store.writer = some w → w.owner ≠ i) := by
  by_cases own : ∃ w, s.store.writer = some w ∧ w.owner = i
  · obtain ⟨w, writing, rfl⟩ := own
    obtain ⟨c, found, holds⟩ := inv.held w writing
    cases live.symm.trans found
    obtain ⟨committed, free⟩ := Store.commit_writer writing
    exact Or.inl ⟨w.working, holds, committed, free, w, writing, rfl⟩
  · have reader : ∀ w, s.store.writer = some w → w.owner ≠ i :=
      fun w writing same => own ⟨w, writing, same⟩
    obtain ⟨nothing, stage⟩ := inv.idle i a live reader
    obtain ⟨committed, kept⟩ := Store.commit_reader reader
    exact Or.inr ⟨nothing, stage, committed, kept, reader⟩

theorem inv_commit {after : Actor T} {moved : Option (Option Nat × Nat)} {begins : Bool}
    (inv : Inv db s) (live : s.actors i = some a) (range : InRange after)
    (cleared : after.pending = []) (stage : after.stage ≠ .cursorSet)
    (chain : Chained (storedPosition db.row) (s.commits ++ [⟨i, moved, a.pending⟩])
      (storedPosition (s.store.commit i).committed.row)) :
    Inv db (commitStep s i a after moved begins) := by
  have others : ∀ j c, (commitStep s i a after moved begins).actors j = some c → j ≠ i →
      s.actors j = some c := fun j c found other => (setActor_other other).symm.trans found
  have ended : ∀ c, (commitStep s i a after moved begins).actors i = some c → c = after := by
    intro c found
    have same := (setActor_same (s := s)).symm.trans found
    cases begins with
    | false => exact absurd same (by simp)
    | true => exact (Option.some.inj same).symm
  have cases := commit_cases inv live
  constructor
  · exact chain
  · have tables : (s.store.commit i).committed.tables =
        written a.pending s.store.committed.tables := by
      rcases cases with ⟨working, holds, committed, _⟩ | ⟨nothing, _, committed, _⟩
      · rw [committed]
        exact holds.tables
      · rw [committed, nothing]
        rfl
    dsimp only [commitStep]
    rw [tables, inv.contents, List.flatMap_append, written, written, written, List.foldl_append]
    simp
  · intro j c found
    by_cases own : j = i
    · subst own
      rw [ended c found]
      exact range
    · exact inv.ranges j c (others j c found own)
  · intro j c found reader
    by_cases own : j = i
    · subst own
      rw [ended c found]
      exact ⟨cleared, stage⟩
    · apply inv.idle j c (others j c found own)
      intro w writing same
      rcases cases with ⟨_, _, _, _, v, held, owner⟩ | ⟨_, _, _, kept, _⟩
      · cases writing.symm.trans held
        exact own (same.symm.trans owner)
      · exact reader w (kept.trans writing) same
  · intro w writing
    rcases cases with ⟨_, _, _, free, _⟩ | ⟨_, _, committed, kept, reader⟩
    · exact absurd (free.symm.trans writing) (by simp)
    · have before : s.store.writer = some w := kept.symm.trans writing
      obtain ⟨c, found, holds⟩ := inv.held w before
      refine ⟨c, (setActor_other (reader w before)).trans found, ?_⟩
      dsimp only [commitStep]
      rw [committed]
      exact holds

theorem inv_constructed {begins : Bool} (inv : Inv db s) (live : s.actors i = some a)
    (stage : a.stage = .constructing) :
    Inv db (commitStep s i a { a with stage := .waiting, pending := [] } none begins) := by
  have range := inv.ranges i a live
  have plain : ∀ w ∈ a.pending, w.event = none := by
    intro w wrote
    cases tagged : w.event with
    | none => rfl
    | some x =>
      have inside := range.pending w wrote x tagged
      have nothing := range.starting stage
      omega
  apply inv_commit inv live _ rfl (by simp)
  · have same : storedPosition (s.store.commit i).committed.row =
        storedPosition s.store.committed.row := by
      rcases commit_cases inv live with ⟨working, holds, committed, _⟩ | ⟨_, _, committed, _⟩
      · rw [committed, holds.row (by simp [stage])]
      · rw [committed]
    rw [same]
    exact Chained.constructed inv.chain rfl plain
  · exact inRange_resting range.forward (fun w wrote => absurd wrote List.not_mem_nil) (Or.inl rfl)

theorem inv_batch {begins : Bool} (inv : Inv db s) (live : s.actors i = some a)
    (stage : a.stage = .cursorSet) :
    Inv db (commitStep s i a
      { a with lastPosition := some a.cursor, stage := .waiting, pending := [] }
      (some (a.lastPosition, a.cursor)) begins) := by
  have range := inv.ranges i a live
  apply inv_commit inv live _ rfl (by simp)
  · rcases commit_cases inv live with ⟨working, holds, committed, _⟩ | ⟨_, other, _⟩
    · obtain ⟨stored, set, differs⟩ := holds.moved stage
      rw [committed, set]
      have chain := inv.chain
      rw [stored] at chain
      exact Chained.batch chain rfl differs range.forward range.pending
    · exact absurd stage other
  · exact inRange_resting (Nat.le_refl _) (fun w wrote => absurd wrote List.not_mem_nil)
      (Or.inl rfl)

theorem inv_guestWrite {event : Option Nat} {change : T → T} {tolerated : Bool}
    (inv : Inv db s) (live : s.actors i = some a) (runs : a.stage.source = some event) :
    Inv db (guestWriteStep s i a event change tolerated) := by
  have range := inv.ranges i a live
  have stage : a.stage ≠ .cursorSet := by
    intro set
    rw [set] at runs
    exact absurd runs (by simp [Stage.source])
  have inside : ∀ x, event = some x → resumePosition a.lastPosition < x ∧ x ≤ a.cursor := by
    intro x tagged
    cases now : a.stage with
    | handling rest =>
      cases rest with
      | nil => simp [now, Stage.source] at runs
      | cons entry rest =>
        simp only [now, Stage.source, Option.some.injEq] at runs
        rw [← runs, Option.some.injEq] at tagged
        rw [← tagged]
        exact range.batch _ now entry List.mem_cons_self
    | opening => simp [now, Stage.source] at runs
    | constructing => simp [now, Stage.source, tagged] at runs
    | waiting => simp [now, Stage.source, tagged] at runs
    | cursorSet => exact absurd now stage
  unfold guestWriteStep
  split
  · rename_i store wrote
    obtain ⟨tables, row, _⟩ := view_holds inv live stage (Store.write_some wrote).1
    apply inv_write inv live stage wrote
    · refine ⟨range.forward, range.starting, range.batch, ?_, ?_⟩
      · intro w member x tagged
        rcases List.mem_append.mp member with old | new
        · exact range.pending w old x tagged
        · obtain rfl := List.mem_singleton.mp new
          exact inside x tagged
      · intro opening
        dsimp only at opening
        rw [opening] at runs
        exact absurd runs (by simp [Stage.source])
    · refine ⟨?_, fun _ => row, fun set => absurd set stage⟩
      dsimp only [changeTables]
      rw [tables, written, written, List.foldl_append]
      rfl
  · by_cases kept : tolerated = true
    · rw [if_pos kept]
      exact inv
    · rw [if_neg kept]
      exact inv_stop inv i

theorem inv_setCursor (inv : Inv db s) (live : s.actors i = some a)
    (stage : a.stage = .handling []) : Inv db (setCursorStep s i a) := by
  have range := inv.ranges i a live
  have before : a.stage ≠ .cursorSet := by simp [stage]
  unfold setCursorStep
  by_cases same : a.lastPosition = some a.cursor
  · rw [if_pos same]
    refine inv_setActor inv live ?_ rfl before (by simp)
    exact inRange_resting range.forward range.pending (Or.inl rfl)
  · rw [if_neg same]
    split
    · exact inv_stop inv i
    · rename_i row updated
      split
      · exact inv_stop inv i
      · rename_i store wrote
        obtain ⟨tables, kept, _⟩ := view_holds inv live before (Store.write_some wrote).1
        obtain ⟨expected, set, _⟩ := updateLastPosition_some updated
        apply inv_write inv live before wrote
        · exact inRange_resting range.forward range.pending (Or.inr rfl)
        · refine ⟨tables, fun other => absurd rfl other, fun _ => ⟨?_, set, same⟩⟩
          rw [← kept]
          exact expected

theorem inv_readPosition (inv : Inv db s) (live : s.actors i = some a)
    (stage : a.stage = .opening) (last : Option Nat) :
    Inv db (setActor s i (some { a with
      lastPosition := last
      cursor := resumePosition last
      stage := .constructing })) := by
  have nothing := (inv.ranges i a live).opening stage
  refine inv_setActor inv live ?_ rfl (by simp [stage]) (by simp)
  constructor
  · exact Nat.le_refl _
  · exact fun _ => rfl
  · simp
  · dsimp only
    rw [nothing]
    exact fun w wrote => absurd wrote List.not_mem_nil
  · exact fun _ => nothing

theorem inv_nextBatch {upto : Nat} (inv : Inv db s) (live : s.actors i = some a)
    (stage : a.stage = .waiting) (forward : a.cursor ≤ upto) :
    Inv db (setActor s i (some { a with
      cursor := (Subscription.nextBatch ⟨a.query, a.cursor⟩ s.log upto).2.position
      stage := .handling (Subscription.nextBatch ⟨a.query, a.cursor⟩ s.log upto).1 })) := by
  have range := inv.ranges i a live
  refine inv_setActor inv live ?_ rfl (by simp [stage]) (by simp)
  constructor
  · exact Nat.le_trans range.forward forward
  · simp
  · intro rest read entry member
    obtain rfl := Stage.handling.inj read
    obtain ⟨_, above, below, _⟩ := mem_window.mp member
    exact ⟨Nat.lt_of_le_of_lt range.forward above, below⟩
  · intro w wrote x tagged
    obtain ⟨above, below⟩ := range.pending w wrote x tagged
    exact ⟨above, Nat.le_trans below forward⟩
  · simp

theorem inv_handled {entry : Nat × Event} {rest : List (Nat × Event)} (inv : Inv db s)
    (live : s.actors i = some a) (stage : a.stage = .handling (entry :: rest)) :
    Inv db (setActor s i (some { a with stage := .handling rest })) := by
  have range := inv.ranges i a live
  refine inv_setActor inv live ?_ rfl (by simp [stage]) (by simp)
  refine ⟨range.forward, by simp, ?_, range.pending, by simp⟩
  intro left now e member
  obtain rfl := Stage.handling.inj now
  exact range.batch _ stage e (List.mem_cons_of_mem _ member)

theorem inv_step {action : Action I T} (inv : Inv db s) (taken : step s action = some t) :
    Inv db t := by
  cases moved_of_step taken with
  | appended events => exact ⟨inv.chain, inv.contents, inv.ranges, inv.idle, inv.held⟩
  | started done => exact inv_start inv done
  | positionRead live stage => exact inv_readPosition inv live stage _
  | guestRead i => exact ⟨inv.chain, inv.contents, inv.ranges, inv.idle, inv.held⟩
  | guestWrote live runs change tolerated => exact inv_guestWrite inv live runs
  | constructed live stage begins => exact inv_constructed inv live stage
  | fetched live stage forward stored => exact inv_nextBatch inv live stage forward
  | handled live stage => exact inv_handled inv live stage
  | cursorSet live stage => exact inv_setCursor inv live stage
  | committed live stage begins => exact inv_batch inv live stage
  | crashed i => exact inv_stop inv i

theorem overtaken_stops (inv : Inv db s) (live : s.actors i = some a)
    (used : a.lastPosition ∈ starts s.commits) :
    a.stage ≠ .cursorSet ∧
      (a.lastPosition ≠ some a.cursor → a.stage ≠ .cursorSet → setCursorStep s i a = stop s i) := by
  have behind : storedPosition s.store.committed.row ≠ a.lastPosition := by
    intro same
    have strict := starts_before inv.chain a.lastPosition used
    rw [same] at strict
    exact Nat.lt_irrefl _ strict
  constructor
  · intro set
    by_cases own : ∃ w, s.store.writer = some w ∧ w.owner = i
    · obtain ⟨w, writing, rfl⟩ := own
      obtain ⟨c, found, holds⟩ := inv.held w writing
      cases live.symm.trans found
      exact behind (holds.moved set).1
    · exact (inv.idle i a live fun w writing same => own ⟨w, writing, same⟩).2 set
  · intro progress stage
    unfold setCursorStep
    rw [if_neg progress]
    split
    · rfl
    · rename_i row updated
      split
      · rfl
      · rename_i store wrote
        obtain ⟨_, kept, _⟩ := view_holds inv live stage (Store.write_some wrote).1
        have expected := (updateLastPosition_some updated).1
        rw [kept] at expected
        exact absurd expected behind

theorem appliedOnce_of_inv (inv : Inv db s) : AppliedOnce db s where
  once := starts_nodup inv.chain
  apart := events_apart inv.chain
  contents := inv.contents
  overtaken := by
    intro i a live _ used
    obtain ⟨stage, stops⟩ := overtaken_stops inv live used
    refine ⟨stage, ?_⟩
    intro t taken progress
    unfold step at taken
    simp only [live] at taken
    split at taken
    · rw [← Option.some.inj taken]
      exact stops progress stage
    · exact absurd taken (by simp)

/-- However the actors' statements interleave, every batch is applied once. -/
theorem applied_once (db : Database T) (log : List Event) (actions : List (Action I T)) :
    Always step (AppliedOnce db) (initial db log) actions := by
  have met : Meets step (fun _ _ => True) (initial db log) actions :=
    meets_of_mem (fun _ _ _ => trivial) _
  exact always_of_meets (fun inv _ taken => inv_step inv taken) appliedOnce_of_inv
    (inv_initial db log) met

/-- Two actors handle the first event. The second reads before the first commits, and its
    guest tolerates the refused write. -/
def overlap : List (Action Bool Nat) :=
  [.start false "counter" (release 1 0 0) .all, .start true "counter" (release 1 0 0) .all,
    .readPosition false, .readPosition true, .constructed false true, .constructed true true,
    .nextBatch false 1, .nextBatch true 1, .guestRead true, .guestWrite false (· + 1) false,
    .handled false, .setCursor false, .commit false true, .guestWrite true (· + 1) true,
    .handled true, .setCursor true]

example : (exec step (initial ⟨none, 0⟩ [⟨"task.created", [], []⟩]) overlap).map
    (fun s => (s.store.committed.tables, starts s.commits, (s.actors true).isNone)) =
    some (1, [none], true) := by decide +kernel

end invariant

end UmariConcurrentProjectors
