import Umari.SingleActor
import Mathlib.Data.List.InsertIdx

/-!
The version a delayed restart brings back. A run of the supervisor carries along what
was loaded last under each name, and for each restart under way what that was when the
restart was sent; no step of the supervisor reads either.
-/
namespace UmariRestartVersions
open GuardedRuns KeyedMaps UmariStateDatabases UmariModuleEvents UmariModuleSupervisor
open UmariModuleSupervisor.Supervisor UmariSingleActor

structure Tracked where
  supervisor : Supervisor
  lastLoad : String → Option Version
  sent : List (Option Version)

/-- The version of the most recent `load_module` or `reset` of each name, none once a
    deactivation or a deletion of the name has been handled. -/
def lastLoadAfter (cfg : Config) (s : Supervisor) (lastLoad : String → Option Version) :
    Action → String → Option Version
  | .publish (.deactivated moduleType name) =>
    if moduleType = cfg.moduleType then Function.update lastLoad name none else lastLoad
  | .publish (.deleted moduleType name) =>
    if moduleType = cfg.moduleType then Function.update lastLoad name none else lastLoad
  | .compiled index =>
    match s.compiling[index]? with
    | some task => Function.update lastLoad task.name (some task.version)
    | none => lastLoad
  | .reset name version _ => Function.update lastLoad name (some version)
  | _ => lastLoad

def sentAfter (lastLoad : String → Option Version) (sent : List (Option Version))
    (restarts : List ModuleCompiled) (a : Action) : List (Option Version) :=
  let kept := match a with
    | .restart index => sent.eraseIdx index
    | _ => sent
  kept ++ (restarts.drop kept.length).map fun message => lastLoad message.name

def trackedStep (cfg : Config) (t : Tracked) (a : Action) : Option Tracked :=
  (step cfg t.supervisor a).map fun next =>
    { supervisor := next
      lastLoad := lastLoadAfter cfg t.supervisor t.lastLoad a
      sent := sentAfter t.lastLoad t.sent next.restarts a }

def trackedStart (active : KeyedMap String Version) : Tracked where
  supervisor := onStart active
  lastLoad := fun name => active.lookup name
  sent := []

def restartSpawned (s : Supervisor) : Action → Option ModuleCompiled
  | .restart index =>
    match s.restarts[index]? with
    | none => none
    | some message =>
      if (s.backoff.lookup message.name).isNone then none
      else if (s.modules.lookup message.name).any fun loaded => s.isAlive loaded.actor then none
      else some message
  | _ => none

/-- A restart spawns the version that was loaded last, and nothing was unloaded since. -/
def RestartsCurrent (t : Tracked) (a : Action) : Prop :=
  ∀ message ∈ restartSpawned t.supervisor a, t.lastLoad message.name = some message.version

/-- What was loaded last has not changed while the restart was under way. -/
def RestartsTimely (t : Tracked) : Action → Prop
  | .restart index => ∀ message ∈ restartSpawned t.supervisor (.restart index),
      t.sent[index]? = some (t.lastLoad message.name)
  | _ => True

/-- A pending swap is taken up while the version it brings is what was loaded last. -/
def swapsCurrent (t : Tracked) : Action → Bool
  | .linkDied index =>
    match t.supervisor.notices[index]? with
    | none => true
    | some id =>
      match t.supervisor.pending.lookup id with
      | some (name, pending) => decide (t.lastLoad name = some pending.version)
      | none => true
  | _ => true

instance {t : Tracked} {a : Action} : Decidable (RestartsCurrent t a) :=
  inferInstanceAs (Decidable (∀ message ∈ restartSpawned t.supervisor a,
    t.lastLoad message.name = some message.version))

instance {t : Tracked} {a : Action} : Decidable (RestartsTimely t a) :=
  match a with
  | .restart index => inferInstanceAs (Decidable (
      ∀ message ∈ restartSpawned t.supervisor (.restart index),
        t.sent[index]? = some (t.lastLoad message.name)))
  | .publish _ | .compiled _ | .compileFailed _ | .reset _ _ _ | .linkDied _ | .start _
  | .write _ _ | .die _ => isTrue trivial

def Current (modules : KeyedMap String VersionedModule) (lastLoad : String → Option Version) :
    Prop := ∀ name loaded, modules.lookup name = some loaded → lastLoad name = some loaded.version

structure Inv (t : Tracked) : Prop where
  current : Current t.supervisor.modules t.lastLoad
  -- each restart was sent while its version was what was loaded last
  messages : t.sent = t.supervisor.restarts.map fun message => some message.version

section current
variable {modules : KeyedMap String VersionedModule} {lastLoad : String → Option Version}

theorem current_erase (current : Current modules lastLoad) (name : String)
    (version : Option Version) :
    Current (modules.erase name) (Function.update lastLoad name version) := by
  intro other loaded found
  obtain ⟨different, kept⟩ := lookup_erase_some.mp found
  rw [Function.update_of_ne different]
  exact current other loaded kept

theorem current_insert (current : Current modules lastLoad) {name : String} {version : Version}
    (last : lastLoad name = some version) (actor component : Nat) :
    Current (modules.insert name ⟨version, actor, component⟩) lastLoad := by
  intro other loaded found
  rcases lookup_insert_some.mp found with ⟨rfl, rfl⟩ | ⟨_, kept⟩
  · exact last
  · exact current other loaded kept

end current

section steps
variable {cfg : Config} {s t : Supervisor} {lastLoad : String → Option Version}

theorem lastLoad_loads {a : Action} {base : Supervisor} {name : String} {p : PendingModule}
    (loads : Loads s a base name p) :
    lastLoadAfter cfg s lastLoad a = Function.update lastLoad name (some p.version) := by
  cases loads with
  | compiled index task found => simp [lastLoadAfter, found]
  | reset => rfl

theorem lastLoad_foreign {event : ModuleEvent} (other : event.moduleType ≠ cfg.moduleType) :
    lastLoadAfter cfg s lastLoad (.publish event) = lastLoad := by
  cases event with
  | activated moduleType name version => rfl
  | deactivated moduleType name => exact if_neg other
  | deleted moduleType name => exact if_neg other

theorem lastLoad_deactivated (name : String) :
    lastLoadAfter cfg s lastLoad (.publish (.deactivated cfg.moduleType name)) =
      Function.update lastLoad name none := if_pos rfl

theorem lastLoad_deleted (name : String) :
    lastLoadAfter cfg s lastLoad (.publish (.deleted cfg.moduleType name)) =
      Function.update lastLoad name none := if_pos rfl

theorem restart_spawned {index : Nat} {message : ModuleCompiled}
    (found : s.restarts[index]? = some message)
    (retried : s.backoff.lookup message.name ≠ none) (vacant : Vacant s message.name) :
    restartSpawned s (.restart index) = some message := by
  simp only [restartSpawned, found]
  rw [if_neg (by simpa using retried)]
  apply if_neg
  cases recorded : s.modules.lookup message.name with
  | none => simp
  | some loaded => simp [vacant loaded recorded]

theorem current_step {a : Action} (current : Current s.modules lastLoad)
    (swaps : ∀ index id name pending, a = .linkDied index → s.notices[index]? = some id →
      s.pending.lookup id = some (name, pending) → lastLoad name = some pending.version)
    (restarts : ∀ message ∈ restartSpawned s a, lastLoad message.name = some message.version)
    (taken : step cfg s a = some t) : Current t.modules (lastLoadAfter cfg s lastLoad a) := by
  cases moved_of_step taken with
  | foreign event other =>
    rw [lastLoad_foreign other]
    exact current
  | alreadyLoaded => exact current
  | compiles => exact current
  | unloaded name loaded found =>
    rw [lastLoad_deactivated]
    exact current_erase current name none
  | notLoaded name =>
    rw [lastLoad_deactivated]
    exact current_erase current name none
  | deletionQueued name loaded found =>
    rw [lastLoad_deleted]
    exact current_erase current name none
  | deletedNow name vacant =>
    rw [lastLoad_deleted]
    exact current_erase current name none
  | swapQueued _ base name p old loads found =>
    rw [lastLoad_loads loads]
    cases loads with
    | compiled => exact current_erase current _ _
    | reset => exact current_erase current _ _
  | loaded _ base name p loads vacant =>
    rw [lastLoad_loads loads]
    have cleared := current_erase current name (some p.version)
    cases loads with
    | compiled => exact current_insert cleared (by simp) _ _
    | reset => exact current_insert cleared (by simp) _ _
  | compileFailed => exact current
  | restartDropped => exact current
  | restarted index message found retried vacant =>
    have spawned := restart_spawned found retried vacant
    exact current_insert current (restarts message spawned) _ _
  | swapped index id name p noticed queued =>
    exact current_insert current (swaps index id name p rfl noticed queued) _ _
  | removalSkipped => exact current
  | removed => exact current
  | failed index id name loaded =>
    unfold handleFailure
    split
    · exact current
    · exact current
  | reaped => exact current
  | started id a =>
    unfold startActor
    dsimp only
    split
    · exact current
    · exact current
  | wrote => exact current
  | died => exact current

theorem restarts_step {a : Action} (taken : step cfg s a = some t) :
    (∃ index, a = .restart index ∧ t.restarts = s.restarts.eraseIdx index) ∨
    ((∀ index, a ≠ .restart index) ∧ (t.restarts = s.restarts ∨
      ∃ name loaded, s.modules.lookup name = some loaded ∧
        t.restarts = s.restarts ++ [⟨name, loaded.version, loaded.component⟩])) := by
  cases moved_of_step taken with
  | swapQueued _ base name p old loads =>
    cases loads with
    | compiled => exact Or.inr ⟨by simp, Or.inl rfl⟩
    | reset => exact Or.inr ⟨by simp, Or.inl rfl⟩
  | loaded _ base name p loads =>
    cases loads with
    | compiled => exact Or.inr ⟨by simp, Or.inl rfl⟩
    | reset => exact Or.inr ⟨by simp, Or.inl rfl⟩
  | restartDropped index => exact Or.inl ⟨index, rfl, rfl⟩
  | restarted index => exact Or.inl ⟨index, rfl, rfl⟩
  | failed index id name loaded noticed unqueued found =>
    apply Or.inr
    refine ⟨by simp, ?_⟩
    unfold handleFailure
    split
    · exact Or.inr ⟨name, loaded, found, rfl⟩
    · exact Or.inl rfl
  | started id a =>
    apply Or.inr
    refine ⟨by simp, Or.inl ?_⟩
    unfold startActor
    dsimp only
    split
    · rfl
    · rfl
  | _ => exact Or.inr ⟨by simp, Or.inl rfl⟩

theorem sent_kept {a : Action} (other : ∀ index, a ≠ .restart index)
    {restarts : List ModuleCompiled} {sent : List (Option Version)} :
    sentAfter lastLoad sent restarts a =
      sent ++ (restarts.drop sent.length).map fun message => lastLoad message.name := by
  cases a with
  | restart index => exact absurd rfl (other index)
  | _ => rfl

theorem messages_step {a : Action} {sent : List (Option Version)}
    (current : Current s.modules lastLoad)
    (messages : sent = s.restarts.map fun message => some message.version)
    (taken : step cfg s a = some t) :
    sentAfter lastLoad sent t.restarts a = t.restarts.map fun message => some message.version := by
  subst messages
  rcases restarts_step taken with ⟨index, rfl, same⟩ | ⟨other, same | ⟨name, loaded, found, same⟩⟩
  · rw [same]
    simp [sentAfter, List.eraseIdx_map]
  · rw [sent_kept other, same]
    simp
  · rw [sent_kept other, same]
    simp [current name loaded found]

end steps

theorem restart_actors {index : Nat} (taken : step cfg s (.restart index) = some t) :
    t.actors = s.actors ++ ((restartSpawned s (.restart index)).map fun message =>
      s.newActor message.name ⟨message.version, message.component, false⟩).toList := by
  cases found : s.restarts[index]? with
  | none => simp [step, found] at taken
  | some message =>
    simp only [step, found, Option.some.injEq] at taken
    subst taken
    simp only [restartSpawned, found, restartModule]
    split
    · simp
    · split
      · rename_i live
        rw [if_pos (by exact live)]
        simp
      · rename_i vacant
        rw [if_neg (by exact vacant)]
        rfl

section tracked
variable {cfg : Config} {t u : Tracked}

theorem tracked_step {a : Action} (taken : trackedStep cfg t a = some u) :
    step cfg t.supervisor a = some u.supervisor ∧
      u.lastLoad = lastLoadAfter cfg t.supervisor t.lastLoad a ∧
      u.sent = sentAfter t.lastLoad t.sent u.supervisor.restarts a := by
  obtain ⟨next, moved, rfl⟩ := Option.map_eq_some_iff.mp taken
  exact ⟨moved, rfl, rfl⟩

theorem exec_tracked (actions : List Action) :
    (exec (trackedStep cfg) t actions).map (·.supervisor) =
      exec (step cfg) t.supervisor actions := by
  induction actions generalizing t with
  | nil => rfl
  | cons a rest ih =>
    rw [exec, exec, trackedStep]
    cases step cfg t.supervisor a with
    | none => rfl
    | some next => exact ih

theorem inv_step {a : Action} (inv : Inv t) (swaps : swapsCurrent t a = true)
    (restarts : RestartsCurrent t a) (taken : trackedStep cfg t a = some u) : Inv u := by
  obtain ⟨moved, last, sent⟩ := tracked_step taken
  constructor
  · rw [last]
    apply current_step inv.current _ restarts moved
    intro index id name pending which noticed queued
    subst which
    simpa [swapsCurrent, noticed, queued] using swaps
  · rw [sent]
    exact messages_step inv.current inv.messages moved

theorem restart_current_iff {a : Action} (inv : Inv t) :
    RestartsCurrent t a ↔ RestartsTimely t a := by
  cases a with
  | restart index =>
    have carried : ∀ message ∈ restartSpawned t.supervisor (.restart index),
        t.sent[index]? = some (some message.version) := by
      intro message spawned
      have found : t.supervisor.restarts[index]? = some message := by
        cases held : t.supervisor.restarts[index]? with
        | none => simp [restartSpawned, held] at spawned
        | some other =>
          simp only [restartSpawned, held] at spawned
          split at spawned
          · exact nomatch spawned
          · split at spawned
            · exact nomatch spawned
            · exact spawned
      rw [inv.messages, List.getElem?_map, found, Option.map_some]
    constructor
    · intro current message spawned
      rw [carried message spawned, current message spawned]
    · intro timely message spawned
      have same := timely message spawned
      rw [carried message spawned] at same
      exact (Option.some.inj same).symm
  | _ =>
    constructor
    · exact fun _ => trivial
    · exact fun _ message spawned => nomatch spawned

end tracked

theorem current_onStart (active : KeyedMap String Version) :
    Current (onStart active).modules (fun name => active.lookup name) ∧
      (onStart active).restarts = [] := by
  apply onStart_loads (P := fun lastLoad s => Current s.modules lastLoad ∧ s.restarts = [])
  · exact ⟨fun name loaded found => (nomatch found), rfl⟩
  · intro lastLoad s name version held _
    have cleared := current_erase held.1 name (some version)
    exact ⟨current_insert cleared (by simp) _ _, held.2⟩

theorem inv_start (active : KeyedMap String Version) : Inv (trackedStart active) where
  current := (current_onStart active).1
  messages := by
    show [] = (onStart active).restarts.map _
    rw [(current_onStart active).2]
    rfl

/-- Where every swap brings what was loaded last, a restart spawns the version loaded
    last exactly when nothing else was loaded under the name while it was under way. -/
theorem restart_current_iff_timely (cfg : Config) (active : KeyedMap String Version)
    (actions : List Action)
    (swaps : Meets (trackedStep cfg) (fun t a => swapsCurrent t a = true) (trackedStart active)
      actions) :
    Meets (trackedStep cfg) RestartsCurrent (trackedStart active) actions ↔
      Meets (trackedStep cfg) RestartsTimely (trackedStart active) actions :=
  meets_iff inv_step (fun inv _ _ => restart_current_iff inv) (inv_start active) swaps

section sample

def effects : Config := ⟨.effect, true⟩

def activateMailer (minor : Nat) : Action :=
  .publish (.activated .effect "mailer" (release 1 minor 0))

def firstFails : List Action := [activateMailer 1, .compiled 0, .die 0, .linkDied 0]

theorem failed_effect_restarts :
    Meets (trackedStep effects) RestartsCurrent (trackedStart ∅) (firstFails ++ [.restart 0]) ∧
      (exec (trackedStep effects) (trackedStart ∅) (firstFails ++ [.restart 0])).map (fun final =>
        final.supervisor.actors.map fun a => (a.version, a.alive)) =
          some [(release 1 1 0, false), (release 1 1 0, true)] := by
  constructor
  · exact (restart_current_iff_timely effects ∅ _ (by decide +kernel)).mpr (by decide +kernel)
  · decide +kernel

/-- Version 1.2 is loaded and fails while the restart of 1.1 is under way: the entry its
    failure makes lets the older restart through. -/
theorem stale_restart_runs_old_version :
    ¬ Meets (trackedStep effects) RestartsCurrent (trackedStart ∅)
        (firstFails ++ [activateMailer 2, .compiled 0, .die 1, .linkDied 0, .restart 0]) ∧
      (exec (trackedStep effects) (trackedStart ∅)
        (firstFails ++ [activateMailer 2, .compiled 0, .die 1, .linkDied 0, .restart 0])).map
          (fun final => (final.supervisor.actors.map fun a => (a.version, a.alive),
            final.lastLoad "mailer")) =
        some ([(release 1 1 0, false), (release 1 2 0, false), (release 1 1 0, true)],
          some (release 1 2 0)) := by
  constructor
  · decide +kernel
  · decide +kernel

end sample
end UmariRestartVersions
