import Umari.SingleActor

/-!
The removal of a module's state files. Every branch that removes them has looked at
`modules` only, where an actor that was asked to stop is no longer listed while it
drains its batch.
-/
namespace UmariStateRemoval
open GuardedRuns KeyedMaps UmariStateDatabases UmariModuleEvents UmariModuleSupervisor
open UmariModuleSupervisor.Supervisor UmariSingleActor

def recordedAlive (s : Supervisor) (name : String) : Bool :=
  (s.modules.lookup name).any fun loaded => s.isAlive loaded.actor

/-- The name for which handling the message runs `remove_state_db` or
    `remove_state_files`. -/
def removes (cfg : Config) (s : Supervisor) : Action → Option String
  | .publish (.deleted moduleType name) =>
    if moduleType = cfg.moduleType ∧ recordedAlive s name = false then some name else none
  | .reset name _ _ => if recordedAlive s name then none else some name
  | .linkDied index =>
    match s.notices[index]? with
    | none => none
    | some id =>
      match s.pending.lookup id with
      | some (name, pending) => if pending.resetDb then some name else none
      | none =>
        match s.pendingDeletions.lookup id with
        | some name => if (s.modules.lookup name).isSome then none else some name
        | none => none
  | _ => none

/-- The actors of the name that satisfy `p`, in the order they were spawned, are all dead. -/
def DeadActors (s : Supervisor) (name : String) (p : ModuleActor → Prop) : Prop :=
  ∀ a ∈ s.actors, a.name = name → p a → a.alive = false

def RemovesUnused (cfg : Config) (s : Supervisor) (a : Action) : Prop :=
  ∀ name, removes cfg s a = some name → DeadActors s name fun _ => True

/-- Files are removed only once every actor of the name that was asked to stop has died. -/
def StopsDone (cfg : Config) (s : Supervisor) (a : Action) : Prop :=
  ∀ name, removes cfg s a = some name → DeadActors s name fun a => a.asked ≠ none

/-- The actor that a link-died notice swaps in takes no name from a live recorded actor. -/
def swapsVacant (s : Supervisor) : Action → Bool
  | .linkDied index =>
    match s.notices[index]? with
    | none => true
    | some id =>
      match s.pending.lookup id with
      | some (name, _) => !recordedAlive s name
      | none => true
  | _ => true

instance {s : Supervisor} {name : String} {p : ModuleActor → Prop} [DecidablePred p] :
    Decidable (DeadActors s name p) :=
  inferInstanceAs (Decidable (∀ a ∈ s.actors, a.name = name → p a → a.alive = false))

instance {cfg : Config} {s : Supervisor} {a : Action} : Decidable (RemovesUnused cfg s a) :=
  inferInstanceAs (Decidable (∀ name ∈ removes cfg s a, DeadActors s name fun _ => True))

instance {cfg : Config} {s : Supervisor} {a : Action} : Decidable (StopsDone cfg s a) :=
  inferInstanceAs (Decidable (∀ name ∈ removes cfg s a, DeadActors s name fun a => a.asked ≠ none))

theorem recordedAlive_false {s : Supervisor} {name : String} :
    recordedAlive s name = false ↔ Vacant s name := by
  unfold recordedAlive Vacant
  cases s.modules.lookup name with
  | none => simp
  | some loaded => simp

section steps
variable {cfg : Config} {s t : Supervisor}

theorem replace_files (s : Supervisor) (name : String) (pending : PendingModule) :
    (s.replaceModule name pending).files =
      if pending.resetDb ∧ recordedAlive s name = false then Function.update s.files name none
      else s.files := by
  rcases replace_cases s name pending with ⟨old, found, alive, same⟩ | ⟨vacant, same⟩
  · have live : recordedAlive s name = true := by
      unfold recordedAlive
      rw [found]
      exact alive
    rw [same, live]
    simp [queueSwap, stopGracefully, forget]
  · rw [same, recordedAlive_false.mpr vacant]
    simp [spawnModule, forget]

theorem noticed_files {id : Nat} (s : Supervisor) :
    (onLinkDied cfg s id).files =
      match s.pending.lookup id with
      | some (name, pending) =>
        if pending.resetDb then Function.update s.files name none else s.files
      | none =>
        match s.pendingDeletions.lookup id with
        | some name =>
          if (s.modules.lookup name).isSome then s.files else Function.update s.files name none
        | none => s.files := by
  unfold onLinkDied
  cases s.pending.lookup id with
  | some entry => rfl
  | none =>
    cases s.pendingDeletions.lookup id with
    | some name =>
      dsimp only
      split
      · rfl
      · rfl
    | none =>
      dsimp only
      cases findEntry s.modules fun _ loaded => decide (loaded.actor = id) with
      | none => rfl
      | some entry =>
        dsimp only [handleFailure]
        split
        · rfl
        · rfl

theorem event_files (s : Supervisor) (event : ModuleEvent) :
    (handleEvent cfg s event).files =
      match event with
      | .deleted moduleType name =>
        if moduleType = cfg.moduleType ∧ recordedAlive s name = false
          then Function.update s.files name none else s.files
      | _ => s.files := by
  cases event with
  | activated moduleType name version =>
    simp only [handleEvent, handleActivated]
    split
    · split
      · split
        · rfl
        · rfl
      · rfl
    · rfl
  | deactivated moduleType name =>
    simp only [handleEvent, handleDeactivated]
    split
    · split
      · rfl
      · rfl
    · rfl
  | deleted moduleType name =>
    by_cases own : moduleType = cfg.moduleType
    · simp only [handleEvent, handleDeleted, recordedAlive, own, ↓reduceIte]
      cases s.modules.lookup name with
      | none => rfl
      | some loaded =>
        by_cases alive : s.isAlive loaded.actor = true
        · simp [alive, queueDeletion, stopGracefully, forget]
        · simp [alive, removeStateFiles, forget]
    · simp [handleEvent, own]

theorem restart_files (s : Supervisor) (message : ModuleCompiled) :
    (restartModule s message).files = s.files := by
  unfold restartModule
  split
  · rfl
  · split
    · rfl
    · rfl

/-- `removes` is what a step does to the paths: the name it gives has no file left, and
    apart from the actors' own starts no other path changes. -/
theorem files_step {a : Action} (taken : step cfg s a = some t)
    (other : ∀ id, a ≠ .start id) :
    t.files = match removes cfg s a with
      | some name => Function.update s.files name none
      | none => s.files := by
  cases a with
  | publish event =>
    cases taken
    rw [event_files]
    cases event with
    | activated moduleType name version => rfl
    | deactivated moduleType name => rfl
    | deleted moduleType name =>
      dsimp only [removes]
      rw [show recordedAlive (s.note (.deleted moduleType name)) name = recordedAlive s name from
        rfl]
      split
      · rfl
      · rfl
  | compiled index =>
    cases found : s.compiling[index]? with
    | none => simp [step, found] at taken
    | some task =>
      simp only [step, found, Option.some.injEq] at taken
      subst taken
      rw [loadModule, replace_files]
      simp [removes]
  | compileFailed index =>
    cases found : s.compiling[index]? with
    | none => simp [step, found] at taken
    | some task =>
      simp only [step, found, Option.some.injEq] at taken
      subst taken
      rfl
  | reset name version component =>
    cases taken
    rw [replace_files]
    cases alive : recordedAlive s name with
    | true => simp [removes, alive]
    | false => simp [removes, alive]
  | restart index =>
    cases found : s.restarts[index]? with
    | none => simp [step, found] at taken
    | some message =>
      simp only [step, found, Option.some.injEq] at taken
      subst taken
      exact restart_files _ message
  | linkDied index =>
    cases noticed : s.notices[index]? with
    | none => simp [step, noticed] at taken
    | some id =>
      simp only [step, noticed, Option.some.injEq] at taken
      subst taken
      rw [noticed_files]
      simp only [removes, noticed]
      cases queued : s.pending.lookup id with
      | some entry =>
        dsimp only
        split
        · rfl
        · rfl
      | none =>
        cases deleting : s.pendingDeletions.lookup id with
        | none => rfl
        | some name =>
          dsimp only
          split
          · rfl
          · rfl
  | start id => exact absurd rfl (other id)
  | write id position =>
    cases moved_of_step taken with
    | swapQueued _ _ _ _ _ loads => cases loads
    | loaded _ _ _ _ loads => cases loads
    | wrote => rfl
  | die id =>
    cases moved_of_step taken with
    | swapQueued _ _ _ _ _ loads => cases loads
    | loaded _ _ _ _ loads => cases loads
    | died => rfl

theorem listed_spawnModule (listed : Listed s.modules s.actors) {name : String}
    (p : PendingModule) (vacant : Vacant s name) :
    Listed (s.spawnModule name p).modules (s.spawnModule name p).actors :=
  listed_spawn (x := s.newActor name p) listed p.version p.component
    (vacant_actors listed vacant)

theorem listed_step {a : Action} (listed : Listed s.modules s.actors)
    (met : swapsVacant s a = true) (taken : step cfg s a = some t) :
    Listed t.modules t.actors := by
  cases moved_of_step taken with
  | foreign => exact listed
  | alreadyLoaded => exact listed
  | compiles => exact listed
  | unloaded name loaded found => exact listed_stop listed found .deactivated
  | notLoaded name none => exact listed_forget listed (vacant_actors listed (vacant_of_none none))
  | deletionQueued name loaded found => exact listed_stop listed found .deleted
  | deletedNow name vacant => exact listed_forget listed (vacant_actors listed vacant)
  | swapQueued _ base name p old loads found =>
    cases loads with
    | compiled => exact listed_stop listed found .replaced
    | reset => exact listed_stop listed found .replaced
  | loaded _ base name p loads vacant =>
    have cleared : Listed (s.forget name).modules (s.forget name).actors :=
      listed_forget listed (vacant_actors listed vacant)
    cases loads with
    | compiled => exact listed_spawnModule cleared _ (vacant_forget s _)
    | reset => exact listed_spawnModule cleared _ (vacant_forget s _)
  | compileFailed => exact listed
  | restartDropped => exact listed
  | restarted index message found retried vacant => exact listed_spawnModule listed _ vacant
  | swapped index id name p noticed queued =>
    simp only [swapsVacant, noticed, queued, Bool.not_eq_true'] at met
    have vacant := recordedAlive_false.mp met
    exact listed_spawnModule (s := { s with
      notices := s.notices.eraseIdx index
      pending := s.pending.erase id }) listed _ vacant
  | removalSkipped => exact listed
  | removed => exact listed
  | failed index id name loaded =>
    unfold handleFailure
    split
    · exact listed
    · exact listed
  | reaped => exact listed
  | started id a =>
    unfold startActor
    dsimp only
    split
    · exact listed_modify listed (fun _ => rfl) (fun _ => rfl) (fun _ alive => alive)
    · exact listed_modify listed (fun _ => rfl) (fun _ => rfl) (fun _ alive => alive)
  | wrote => exact listed
  | died id a =>
    exact listed_modify listed (fun _ => rfl) (fun _ => rfl)
      (fun _ alive => absurd alive Bool.false_ne_true)

theorem removes_vacant {a : Action} {name : String} (met : swapsVacant s a = true)
    (removed : removes cfg s a = some name) : Vacant s name := by
  rw [← recordedAlive_false]
  unfold removes at removed
  split at removed
  · split at removed
    · rename_i both
      obtain rfl := Option.some.inj removed
      exact both.2
    · exact absurd removed (by simp)
  · split at removed
    · exact absurd removed (by simp)
    · rename_i dead
      obtain rfl := Option.some.inj removed
      exact Bool.eq_false_iff.mpr dead
  · rename_i index
    cases noticed : s.notices[index]? with
    | none => simp [noticed] at removed
    | some id =>
      cases queued : s.pending.lookup id with
      | some entry =>
        simp only [swapsVacant, noticed, queued, Bool.not_eq_true'] at met
        simp only [noticed, queued] at removed
        split at removed
        · obtain rfl := Option.some.inj removed
          exact met
        · exact absurd removed (by simp)
      | none =>
        cases deleting : s.pendingDeletions.lookup id with
        | none => simp [noticed, queued, deleting] at removed
        | some other =>
          simp only [noticed, queued, deleting] at removed
          split at removed
          · exact absurd removed (by simp)
          · rename_i free
            obtain rfl := Option.some.inj removed
            unfold recordedAlive
            rw [Option.not_isSome_iff_eq_none.mp free, Option.any_none]
  · exact absurd removed (by simp)

theorem unused_iff_stops_done {a : Action} (listed : Listed s.modules s.actors)
    (met : swapsVacant s a = true) : RemovesUnused cfg s a ↔ StopsDone cfg s a := by
  constructor
  · intro unused name removed x member named _
    exact unused name removed x member named trivial
  · intro done name removed x member named _
    obtain ⟨id, found⟩ := List.mem_iff_getElem?.mp member
    by_cases asked : x.asked = none
    · apply Bool.eq_false_iff.mpr
      intro alive
      exact vacant_actors listed (removes_vacant met removed) id x found alive asked named
    · exact done name removed x member named asked

end steps

theorem listed_onStart (active : KeyedMap String Version) :
    Listed (onStart active).modules (onStart active).actors := (orderly_onStart active).1.current

/-- Where no swap takes the name of a live recorded actor, the files of a name are
    removed under no live actor exactly when each removal comes after the deaths of the
    actors that were asked to stop. -/
theorem removal_unused_iff_stops_done (cfg : Config) (active : KeyedMap String Version)
    (actions : List Action)
    (swaps : Meets (step cfg) (fun s a => swapsVacant s a = true) (onStart active) actions) :
    Meets (step cfg) (RemovesUnused cfg) (onStart active) actions ↔
      Meets (step cfg) (StopsDone cfg) (onStart active) actions := by
  have preserved : ∀ {s a t}, Listed s.modules s.actors → swapsVacant s a = true →
      RemovesUnused cfg s a → step cfg s a = some t → Listed t.modules t.actors :=
    fun listed met _ taken => listed_step listed met taken
  exact meets_iff preserved (fun listed met _ => unused_iff_stops_done listed met)
    (listed_onStart active) swaps

section sample

def deletion : Action := .publish (.deleted .projector "ledger")

def deletedWhileRunning : List Action :=
  [activation 1, .compiled 0, .start 0, deletion, .die 0, .linkDied 0]

theorem deletion_waits_for_actor :
    Meets (step projectors) (RemovesUnused projectors) (onStart ∅) deletedWhileRunning :=
  (removal_unused_iff_stops_done projectors ∅ deletedWhileRunning (by decide +kernel)).mpr
    (by decide +kernel)

/-- Deleting a module whose actor still drains after a deactivation: the actor keeps
    running on a file that is no longer at its path. -/
theorem deletion_after_deactivation_unlinks :
    ¬ Meets (step projectors) (RemovesUnused projectors) (onStart ∅)
        [activation 1, .compiled 0, .start 0, .publish (.deactivated .projector "ledger"),
          deletion] ∧
      (exec (step projectors) (onStart ∅)
        [activation 1, .compiled 0, .start 0, .publish (.deactivated .projector "ledger"),
          deletion]).map (fun final =>
            (final.actors.map fun a => (a.name, a.alive, a.opened), final.files "ledger")) =
        some ([("ledger", true, some 0)], none) := by
  constructor
  · decide +kernel
  · decide +kernel

end sample
end UmariStateRemoval
