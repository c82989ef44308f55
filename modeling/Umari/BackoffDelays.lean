import Mathlib.Algebra.Group.Nat.Defs
import Umari.ModuleSupervisor

/-!
The delays before an effect is restarted. A run of the supervisor carries along, for
each name, the failures since its last load, newest first: the `last_position` each of
them read and the delay of the restart it scheduled. No step of the supervisor reads
them. Delays are in seconds.
-/
namespace UmariBackoffDelays
open GuardedRuns KeyedMaps UmariStateDatabases UmariModuleEvents UmariModuleSupervisor
open UmariModuleSupervisor.Supervisor

structure Failure where
  position : Option Nat
  delay : Nat
deriving DecidableEq, Repr

def unchanged (position : Option Nat) : List Failure → Nat
  | [] => 0
  | f :: earlier => if f.position = position then unchanged position earlier + 1 else 0

/-- The delay doubles with each failure at an unchanged position, up to ten minutes. -/
def Law : List Failure → Prop
  | [] => True
  | f :: earlier => f.delay = min (2 ^ unchanged f.position earlier) 600 ∧ Law earlier

instance decideLaw : ∀ failures, Decidable (Law failures)
  | [] => isTrue trivial
  | f :: earlier =>
    have := decideLaw earlier
    inferInstanceAs (Decidable (f.delay = min (2 ^ unchanged f.position earlier) 600 ∧ Law earlier))

/-- The entry of a module that has not failed counts as a failure at no position. -/
def unfailed : Failure := ⟨none, 1⟩

def Scheduled : List Failure → Prop
  | [] => True
  | f :: earlier =>
    f.delay = min (2 ^ unchanged f.position (earlier ++ [unfailed])) 600 ∧ Scheduled earlier

def StoredFirst (failures : List Failure) : Prop :=
  ∀ first ∈ failures.getLast?, first.position ≠ none

theorem unchanged_unfailed {position : Option Nat} {earlier : List Failure}
    (moved : ∀ first ∈ earlier.getLast?, first.position ≠ none)
    (alone : earlier = [] → position ≠ none) :
    unchanged position (earlier ++ [unfailed]) = unchanged position earlier := by
  induction earlier with
  | nil => exact if_neg fun same => alone rfl same.symm
  | cons f rest ih =>
    rw [List.cons_append, unchanged, unchanged]
    by_cases same : f.position = position
    · have later : ∀ first ∈ rest.getLast?, first.position ≠ none := by
        intro first last
        apply moved first
        rw [List.getLast?_cons, Option.mem_def.mp last]
        exact rfl
      have single : rest = [] → position ≠ none := by
        intro empty
        have here := moved f (by rw [empty]; exact rfl)
        rwa [same] at here
      rw [if_pos same, if_pos same, ih later single]
    · rw [if_neg same, if_neg same]

theorem law_iff {failures : List Failure} (scheduled : Scheduled failures) :
    Law failures ↔ StoredFirst failures := by
  induction failures with
  | nil =>
    constructor
    · intro _ first last
      exact absurd last (by simp)
    · exact fun _ => trivial
  | cons f earlier ih =>
    obtain ⟨delay, rest⟩ := scheduled
    cases earlier with
    | nil =>
      rw [Law, delay]
      by_cases none : f.position = none
      · have twice : unchanged f.position ([] ++ [unfailed]) = 1 := if_pos none.symm
        constructor
        · intro law
          rw [twice, unchanged] at law
          exact absurd law.1 (by decide)
        · intro stored
          exact absurd none (stored f rfl)
      · have once : unchanged f.position ([] ++ [unfailed]) = 0 := if_neg fun same => none same.symm
        rw [once]
        constructor
        · intro _ first last
          rw [← Option.some.inj last]
          exact none
        · exact fun _ => ⟨rfl, trivial⟩
    | cons g before =>
      have sameLast : StoredFirst (f :: g :: before) ↔ StoredFirst (g :: before) := by
        unfold StoredFirst
        rw [List.getLast?_cons_cons]
      rw [sameLast, ← ih rest, Law]
      constructor
      · exact And.right
      · intro law
        have stored := (ih rest).mp law
        have same : unchanged f.position (g :: before ++ [unfailed]) =
            unchanged f.position (g :: before) :=
          unchanged_unfailed stored (fun empty => nomatch empty)
        rw [same] at delay
        exact ⟨delay, law⟩

def entryOf : List Failure → Option ModuleBackoffState
  | [] => none
  | f :: earlier => some ⟨f.delay, f.position, earlier.length + 1⟩

structure Explained (entry : Option ModuleBackoffState) (failures : List Failure) : Prop where
  entry : entry = entryOf failures
  scheduled : Scheduled failures

theorem nextBackoff_entry (failures : List Failure) (position : Option Nat) :
    nextBackoff (entryOf failures) position =
      ⟨(nextBackoff (entryOf failures) position).delay, position, failures.length + 1⟩ := by
  cases failures with
  | nil => rfl
  | cons f earlier => rfl

theorem explained_next {entry : Option ModuleBackoffState} {failures : List Failure}
    (explained : Explained entry failures) (position : Option Nat) :
    Explained (some (nextBackoff entry position))
      (⟨position, (nextBackoff entry position).delay⟩ :: failures) := by
  obtain ⟨rfl, scheduled⟩ := explained
  refine ⟨congrArg some (nextBackoff_entry failures position), ?_, scheduled⟩
  cases failures with
  | nil =>
    by_cases none : none = position
    · have twice : unchanged position ([] ++ [unfailed]) = 1 := if_pos none
      rw [twice, entryOf, nextBackoff]
      exact if_pos none
    · have once : unchanged position ([] ++ [unfailed]) = 0 := if_neg none
      rw [once, entryOf, nextBackoff]
      exact if_neg none
  | cons f earlier =>
    obtain ⟨delay, _⟩ := scheduled
    rw [List.cons_append, unchanged, entryOf, nextBackoff]
    dsimp only [Option.getD_some]
    by_cases same : f.position = position
    · rw [if_pos same, if_pos same, delay, ← same, Nat.pow_succ]
      omega
    · rw [if_neg same, if_neg same]
      rfl

section watch
variable (cfg : Config)

def failedModule (s : Supervisor) (id : Nat) : Option String :=
  if (s.pending.lookup id).isSome ∨ (s.pendingDeletions.lookup id).isSome then none
  else (findEntry s.modules fun _ loaded => decide (loaded.actor = id)).map (·.1)

def failed (s : Supervisor) : Action → Option String
  | .linkDied index =>
    if cfg.retryOnFailure then (s.notices[index]?).bind (failedModule s) else none
  | _ => none

def reloaded (s : Supervisor) : Action → Option String
  | .publish (.deactivated moduleType name) =>
    if moduleType = cfg.moduleType then some name else none
  | .publish (.deleted moduleType name) =>
    if moduleType = cfg.moduleType then some name else none
  | .compiled index => (s.compiling[index]?).map (·.name)
  | .reset name _ _ => some name
  | _ => none

structure Watched where
  supervisor : Supervisor
  failures : String → List Failure

def failuresAfter (s next : Supervisor) (failures : String → List Failure) (a : Action) :
    String → List Failure :=
  match failed cfg s a with
  | some name =>
    let delay := ((next.backoff.lookup name).map (·.delay)).getD 0
    Function.update failures name (⟨s.readLastPosition name, delay⟩ :: failures name)
  | none =>
    match reloaded cfg s a with
    | some name => Function.update failures name []
    | none => failures

def watchedStep (w : Watched) (a : Action) : Option Watched :=
  (step cfg w.supervisor a).map fun next =>
    { supervisor := next
      failures := failuresAfter cfg w.supervisor next w.failures a }

def watchedStart (active : KeyedMap String Version) : Watched := ⟨onStart active, fun _ => []⟩

end watch

section steps
variable {cfg : Config} {s t : Supervisor} {a : Action}

theorem replace_backoff (s : Supervisor) (name : String) (pending : PendingModule) :
    (s.replaceModule name pending).backoff = s.backoff.erase name := by
  rcases replace_cases s name pending with ⟨old, _, _, same⟩ | ⟨_, same⟩
  · rw [same]
    rfl
  · rw [same]
    rfl

theorem deactivated_backoff (s : Supervisor) (name : String) :
    (s.handleDeactivated name).backoff = s.backoff.erase name := by
  unfold handleDeactivated
  cases s.modules.lookup name with
  | none => rfl
  | some loaded => rfl

theorem deleted_backoff (s : Supervisor) (name : String) :
    (s.handleDeleted name).backoff = s.backoff.erase name := by
  unfold handleDeleted
  cases s.modules.lookup name with
  | none => rfl
  | some loaded =>
    dsimp only
    split
    · rfl
    · rfl

theorem activated_backoff (s : Supervisor) (name : String) (version : Version) :
    (s.handleActivated name version).backoff = s.backoff := by
  unfold handleActivated
  cases s.modules.lookup name with
  | none => rfl
  | some current =>
    dsimp only
    split
    · rfl
    · rfl

theorem started_backoff (s : Supervisor) (id : Nat) (actor : ModuleActor) :
    (s.startActor id actor).backoff = s.backoff := by
  unfold startActor
  dsimp only
  split
  · rfl
  · rfl

theorem restart_backoff (s : Supervisor) (message : ModuleCompiled) :
    (s.restartModule message).backoff = s.backoff := by
  unfold restartModule
  split
  · rfl
  · split
    · rfl
    · rfl

theorem noticed_backoff (s : Supervisor) (id : Nat) :
    (onLinkDied cfg s id).backoff =
      match if cfg.retryOnFailure then failedModule s id else none with
      | none => s.backoff
      | some name => s.backoff.insert name
          (nextBackoff (s.backoff.lookup name) (s.readLastPosition name)) := by
  unfold onLinkDied failedModule
  cases s.pending.lookup id with
  | some entry => simp [spawnModule]
  | none =>
    cases s.pendingDeletions.lookup id with
    | some name =>
      cases taken : s.modules.lookup name with
      | none => simp [taken, removeStateFiles]
      | some loaded => simp [taken]
    | none =>
      cases found : findEntry s.modules fun _ loaded => decide (loaded.actor = id) with
      | none => simp
      | some entry =>
        obtain ⟨name, loaded⟩ := entry
        by_cases retried : cfg.retryOnFailure = true
        · simp [handleFailure, retried]
        · simp [handleFailure, retried]

theorem handleEvent_backoff (s : Supervisor) (event : ModuleEvent) :
    (handleEvent cfg s event).backoff = match reloaded cfg s (.publish event) with
      | some name => s.backoff.erase name
      | none => s.backoff := by
  cases event with
  | activated moduleType name version =>
    rw [handleEvent]
    split
    · exact activated_backoff _ name version
    · rfl
  | deactivated moduleType name =>
    by_cases own : moduleType = cfg.moduleType
    · simp only [handleEvent, if_pos own, reloaded]
      exact deactivated_backoff _ name
    · simp only [handleEvent, if_neg own, reloaded]
  | deleted moduleType name =>
    by_cases own : moduleType = cfg.moduleType
    · simp only [handleEvent, if_pos own, reloaded]
      exact deleted_backoff _ name
    · simp only [handleEvent, if_neg own, reloaded]

theorem step_backoff (taken : step cfg s a = some t) :
    t.backoff = match failed cfg s a with
      | some name => s.backoff.insert name
          (nextBackoff (s.backoff.lookup name) (s.readLastPosition name))
      | none =>
        match reloaded cfg s a with
        | some name => s.backoff.erase name
        | none => s.backoff := by
  cases a with
  | publish event =>
    cases taken
    exact handleEvent_backoff _ event
  | compiled index =>
    cases found : s.compiling[index]? with
    | none => simp [step, found] at taken
    | some task =>
      simp only [step, found, Option.some.injEq] at taken
      subst taken
      simp only [failed, reloaded, found, Option.map_some]
      exact replace_backoff _ task.name _
  | compileFailed index =>
    cases found : s.compiling[index]? with
    | none => simp [step, found] at taken
    | some task =>
      simp only [step, found, Option.some.injEq] at taken
      subst taken
      rfl
  | reset name version component =>
    cases taken
    exact replace_backoff s name _
  | restart index =>
    cases found : s.restarts[index]? with
    | none => simp [step, found] at taken
    | some message =>
      simp only [step, found, Option.some.injEq] at taken
      subst taken
      exact restart_backoff _ message
  | linkDied index =>
    cases noticed : s.notices[index]? with
    | none => simp [step, noticed] at taken
    | some id =>
      simp only [step, noticed, Option.some.injEq] at taken
      subst taken
      have same : failedModule { s with notices := s.notices.eraseIdx index } id =
          failedModule s id := rfl
      rw [noticed_backoff, same]
      simp only [failed, reloaded, noticed, Option.bind_some]
      cases (if cfg.retryOnFailure = true then failedModule s id else none) with
      | none => rfl
      | some name => rfl
  | start id =>
    cases found : s.actors[id]? with
    | none => simp [step, found] at taken
    | some actor =>
      simp only [step, found] at taken
      split at taken
      · obtain rfl := Option.some.inj taken
        exact started_backoff s id actor
      · exact absurd taken (by simp)
  | write id position =>
    cases moved_of_step taken with
    | swapQueued _ _ _ _ _ loads => cases loads
    | loaded _ _ _ _ loads => cases loads
    | wrote _ _ inode => rfl
  | die id =>
    cases moved_of_step taken with
    | swapQueued _ _ _ _ _ loads => cases loads
    | loaded _ _ _ _ loads => cases loads
    | died _ actor found alive => rfl

end steps

def Inv (w : Watched) : Prop :=
  ∀ name, Explained (w.supervisor.backoff.lookup name) (w.failures name)

theorem inv_step {cfg : Config} {w w' : Watched} {a : Action} (inv : Inv w)
    (taken : watchedStep cfg w a = some w') : Inv w' := by
  obtain ⟨next, moved, rfl⟩ := Option.map_eq_some_iff.mp taken
  have backoff := step_backoff moved
  intro other
  have held := inv other
  rw [failuresAfter]
  cases failing : failed cfg w.supervisor a with
  | some name =>
    simp only [failing] at backoff
    dsimp only
    by_cases same : other = name
    · subst same
      rw [Function.update_self, backoff, AList.lookup_insert]
      exact explained_next held _
    · rw [Function.update_of_ne same, backoff, AList.lookup_insert_ne same]
      exact held
  | none =>
    simp only [failing] at backoff
    cases again : reloaded cfg w.supervisor a with
    | some name =>
      simp only [again] at backoff
      dsimp only
      by_cases same : other = name
      · subst same
        rw [Function.update_self, backoff, AList.lookup_erase]
        exact ⟨rfl, trivial⟩
      · rw [Function.update_of_ne same, backoff, AList.lookup_erase_ne same]
        exact held
    | none =>
      simp only [again] at backoff
      dsimp only
      rw [backoff]
      exact held

theorem inv_start (active : KeyedMap String Version) : Inv (watchedStart active) := by
  have fresh : ∀ name, (onStart active).backoff.lookup name = none := by
    apply onStart_induction (P := fun s => ∀ name, s.backoff.lookup name = none)
    · exact fun _ => rfl
    · intro s name version none _ other
      exact lookup_erase_none.mpr (Or.inr (none other))
  intro name
  exact ⟨fresh name, trivial⟩

/-- The delays of every stretch of failures between two loads follow the law exactly when
    the first of them found a stored position. -/
theorem backoff_law_iff_stored_first (cfg : Config) (active : KeyedMap String Version)
    (actions : List Action) {w : Watched}
    (run : exec (watchedStep cfg) (watchedStart active) actions = some w) (name : String) :
    Law (w.failures name) ↔ StoredFirst (w.failures name) := by
  have inv : Inv w := invariant (fun held taken => inv_step held taken) (inv_start active) run
  exact law_iff (inv name).scheduled

section sample

def effects : Config := ⟨.effect, true⟩

def mailer : Watched := watchedStart ((∅ : KeyedMap String Version).insert "mailer" (release 1 0 0))

/-- A module that fails before it has stored any position waits two seconds, not one. -/
theorem unstored_failure_waits_two_seconds :
    ∃ w, exec (watchedStep effects) mailer [.start 0, .die 0, .linkDied 0] = some w ∧
      w.failures "mailer" = [⟨none, 2⟩] ∧ ¬ Law (w.failures "mailer") := by
  have delays : (exec (watchedStep effects) mailer [.start 0, .die 0, .linkDied 0]).map
      (fun w => w.failures "mailer") = some [⟨none, 2⟩] := by decide +kernel
  obtain ⟨w, run, failures⟩ := Option.map_eq_some_iff.mp delays
  refine ⟨w, run, failures, ?_⟩
  rw [failures]
  decide

def retried : List Action :=
  [.start 0, .write 0 (some 5), .die 0, .linkDied 0, .restart 0, .start 1, .die 1, .linkDied 0,
    .restart 0, .start 2, .write 2 (some 6), .die 2, .linkDied 0]

theorem stored_failures_follow_law :
    ∃ w, exec (watchedStep effects) mailer retried = some w ∧
      w.failures "mailer" = [⟨some 6, 1⟩, ⟨some 5, 2⟩, ⟨some 5, 1⟩] ∧
      Law (w.failures "mailer") := by
  have delays : (exec (watchedStep effects) mailer retried).map (fun w => w.failures "mailer") =
      some [⟨some 6, 1⟩, ⟨some 5, 2⟩, ⟨some 5, 1⟩] := by decide +kernel
  obtain ⟨w, run, failures⟩ := Option.map_eq_some_iff.mp delays
  have law := backoff_law_iff_stored_first effects _ retried run "mailer"
  refine ⟨w, run, failures, law.mpr ?_⟩
  rw [failures]
  intro first last
  rw [← Option.some.inj last]
  exact Option.some_ne_none 5

end sample

end UmariBackoffDelays
