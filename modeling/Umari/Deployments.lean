import Umari.CommandConvergence
import Umari.Convergence
import Umari.DeployedModules

/-!
What the subscribers serve once everything that was published has reached them and nothing
is under way any more, next to what the module store has active: the command actor, and
the supervisors of the projectors and of the effects. Both start at any time, while
modules are saved, activated, deactivated and deleted.
-/
namespace UmariDeployments
open GuardedRuns KeyedMaps UmariStateDatabases UmariModuleEvents
open UmariModuleStore UmariStoreReferences UmariPublishedModules
open UmariDeployedModules

def stores {A : Type} (moduleType : ModuleType) (minor : Nat) : Action A :=
  .store (.saveModule .never moduleType "transfer" (release 1 minor 0) minor [] [0])

def activates {A : Type} (moduleType : ModuleType) (minor : Nat) : Action A :=
  .store (.activateModule .never moduleType "transfer" (release 1 minor 0))

section commands
open UmariCommandActor UmariCommandConvergence

def publishedTo : UmariCommandActor.Action → Option ModuleEvent
  | .publish event => some event
  | _ => none

theorem command_noted {s t : CommandActor} {a : UmariCommandActor.Action}
    (taken : UmariCommandActor.step s a = some t) :
    t.published = s.published ++ (publishedTo a).toList := by
  have same : s.published = s.published ++ [] := (List.append_nil _).symm
  cases moved_of_step taken with
  | published event => rfl
  | finished => exact same
  | compileFailed => exact same
  | called => exact same
  | foreign => exact same
  | alreadyLoaded => exact same
  | compiles => exact same
  | unloaded => exact same
  | loaded => exact same
  | loadFailed => exact same
  | executed => exact same

def commands : Subscriber CommandActor UmariCommandActor.Action where
  moduleType := .command
  onStart := onStart
  step := UmariCommandActor.step
  publish := .publish
  event := publishedTo
  published := CommandActor.published
  sent := fun _ => rfl
  fresh := fun _ => rfl
  noted := command_noted

/-- In every run without a failure, with the actor started at any time: once all events
    have reached it and nothing is pending, a name runs the version that the store has
    active iff the last result handled since the name's last event is of that version. -/
theorem commands_follow_store (digest : List UInt8 → String)
    (actions : List (Action UmariCommandActor.Action)) {final : State CommandActor}
    (run : exec (step digest commands) start actions = some final)
    (met : Meets (step digest commands) (Allowed commands fun _ a => succeeds a = true) start
      actions)
    {active : KeyedMap String Version} {actor : CommandActor}
    (running : final.phase = .running active actor) (delivered : Delivered final)
    (quiet : Quiescent actor) (name : String) :
    (∀ version, Serves active actor name version ↔ StoreActive .command final name version) ↔
      ∀ task ∈ (loadedSince name actor.handled).getLast?,
        StoreActive .command final name task.version := by
  have covers : Covers digest commands UmariCommandConvergence.Inv final := by
    apply covers_run inv_onStart _ run met
    intro active s a t held success taken
    exact UmariCommandConvergence.inv_step held success taken
  have intends := intended_delivered covers running delivered name
  have settled := converged_iff_timely (covers.kept running) quiet name
  unfold Converged Timely at settled
  have wanted : ∀ version, intended .command name (active.lookup name) actor.published =
      some version ↔ StoreActive .command final name version := intends
  simp only [wanted] at settled
  exact settled

section sample

/-- Version 1.1 is activated before the store answers, 1.2 while its answer is loaded. -/
def upgradedAtStart : List (Action UmariCommandActor.Action) :=
  [stores .command 1, stores .command 2, .subscribe, activates .command 1, .forward,
    .getAllActiveModules, activates .command 2, .started, .forward, .receive, .receive,
    .own (.handle true), .own (.handle true), .own (.compiled 0), .own (.handle true)]

def activatedBeforeAnswer : List (Action UmariCommandActor.Action) :=
  [stores .command 1, stores .command 2, .subscribe, activates .command 1,
    activates .command 2, .getAllActiveModules, .started, .forward, .forward, .receive, .receive,
    .own (.handle true), .own (.handle true), .own (.compiled 0), .own (.handle true)]

structure Outcome where
  forwarded : Nat
  published : Nat
  queued : List ModuleEvent
  listed : List Module
  mailbox : List Message
  compiling : List ModuleCompiled
  loads : List ModuleCompiled
  served : Option VersionedModule
deriving DecidableEq

def outcome (final : State CommandActor) : Option Outcome :=
  final.phase.actor.map fun entry =>
    { forwarded := final.forwarded
      published := final.store.published.length
      queued := final.queued
      listed := getAllActiveModules final.store.store none
      mailbox := entry.2.mailbox
      compiling := entry.2.compiling
      loads := loadedSince "transfer" entry.2.handled
      served := entry.2.components.lookup "transfer" }

def storedTransfer : Module := ⟨.command, "transfer", release 1 2 0, "hash", [0]⟩

theorem served_of_outcome (actions : List (Action UmariCommandActor.Action)) (minor : Nat)
    (seen : (exec (step (fun _ => "hash") commands) start actions).bind outcome =
      some ⟨2, 2, [], [storedTransfer], [], [], [⟨"transfer", release 1 minor 0, minor⟩],
        some ⟨release 1 minor 0, minor⟩⟩) :
    ∃ final active actor, exec (step (fun _ => "hash") commands) start actions = some final ∧
      final.phase = .running active actor ∧ Delivered final ∧ Quiescent actor ∧
      StoreActive .command final "transfer" (release 1 2 0) ∧
      loadedSince "transfer" actor.handled = [⟨"transfer", release 1 minor 0, minor⟩] ∧
      actor.components.lookup "transfer" = some ⟨release 1 minor 0, minor⟩ := by
  obtain ⟨final, run, read⟩ := Option.bind_eq_some_iff.mp seen
  obtain ⟨⟨active, actor⟩, up, fields⟩ := Option.map_eq_some_iff.mp read
  simp only [Outcome.mk.injEq] at fields
  obtain ⟨forwarded, published, queued, listed, drained, compiled, loads, served⟩ := fields
  refine ⟨final, active, actor, run, Phase.actor_some.mp up,
    ⟨forwarded.trans published.symm, queued⟩, ⟨drained, compiled⟩, ?_, loads, served⟩
  refine ⟨storedTransfer, ?_, rfl, rfl, rfl⟩
  rw [listed]
  exact List.mem_singleton.mpr rfl

theorem upgrade_follows_store : ∃ final active actor,
    exec (step (fun _ => "hash") commands) start upgradedAtStart = some final ∧
      final.phase = .running active actor ∧
      ∀ version, Serves active actor "transfer" version ↔
        StoreActive .command final "transfer" version := by
  obtain ⟨final, active, actor, run, running, delivered, quiet, stored, loads, _⟩ :=
    served_of_outcome upgradedAtStart 2 (by decide +kernel)
  refine ⟨final, active, actor, run, running, ?_⟩
  apply (commands_follow_store _ upgradedAtStart run (by decide +kernel) running delivered quiet
    "transfer").mpr
  intro task last
  rw [loads] at last
  obtain rfl : ⟨"transfer", release 1 2 0, 2⟩ = task := Option.some.inj last
  exact stored

/-- The activation of 1.1 is handled again after the start, that of 1.2 finds 1.2 loaded:
    the component of 1.1 compiles and takes its place. -/
theorem start_serves_older : ∃ final active actor,
    exec (step (fun _ => "hash") commands) start activatedBeforeAnswer = some final ∧
      Meets (step (fun _ => "hash") commands) (Allowed commands fun _ a => succeeds a = true) start
        activatedBeforeAnswer ∧
      final.phase = .running active actor ∧ Delivered final ∧ Quiescent actor ∧
      StoreActive .command final "transfer" (release 1 2 0) ∧
      ¬ Serves active actor "transfer" (release 1 2 0) := by
  obtain ⟨final, active, actor, run, running, delivered, quiet, stored, _, served⟩ :=
    served_of_outcome activatedBeforeAnswer 1 (by decide +kernel)
  refine ⟨final, active, actor, run, by decide +kernel, running, delivered, quiet, stored, ?_⟩
  intro serves
  obtain ⟨loaded, found, version, _⟩ := serves
  rw [instantiateModule, served] at found
  obtain rfl := Except.ok.inj found
  exact absurd version (by decide)

end sample
end commands

section supervisors
open UmariModuleSupervisor UmariConvergence
variable {cfg : Config} {s t : Supervisor}

def publishedToSupervisor : UmariModuleSupervisor.Action → Option ModuleEvent
  | .publish event => some event
  | _ => none

theorem supervisor_noted {a : UmariModuleSupervisor.Action}
    (taken : UmariModuleSupervisor.step cfg s a = some t) :
    t.published = s.published ++ (publishedToSupervisor a).toList := by
  have same : s.published = s.published ++ [] := (List.append_nil _).symm
  cases moved_of_step taken with
  | foreign => rfl
  | alreadyLoaded => rfl
  | compiles => rfl
  | unloaded => rfl
  | notLoaded => rfl
  | deletionQueued => rfl
  | deletedNow => rfl
  | swapQueued _ base name pending old loads =>
    cases loads with
    | compiled => exact same
    | reset => exact same
  | loaded _ base name pending loads =>
    cases loads with
    | compiled => exact same
    | reset => exact same
  | compileFailed => exact same
  | restartDropped => exact same
  | restarted => exact same
  | swapped => exact same
  | removalSkipped => exact same
  | removed => exact same
  | failed =>
    unfold Supervisor.handleFailure
    split
    · exact same
    · exact same
  | reaped => exact same
  | started id a =>
    unfold Supervisor.startActor
    dsimp only
    split
    · exact same
    · exact same
  | wrote => exact same
  | died => exact same

def supervisors (cfg : Config) : Subscriber Supervisor UmariModuleSupervisor.Action where
  moduleType := cfg.moduleType
  onStart := onStart
  step := UmariModuleSupervisor.step cfg
  publish := .publish
  event := publishedToSupervisor
  published := Supervisor.published
  sent := fun _ => rfl
  fresh := fun active => (started_onStart active).unpublished
  noted := supervisor_noted

/-- In every run whose results are handled in time and whose swaps are left alone, with the
    supervisor started at any time: once all events have reached it and nothing is pending,
    the actors that run are those of the versions that the store has active. -/
theorem supervisors_follow_store (digest : List UInt8 → String) (cfg : Config)
    (actions : List (Action UmariModuleSupervisor.Action)) {final : State Supervisor}
    (run : exec (step digest (supervisors cfg)) start actions = some final)
    (met : Meets (step digest (supervisors cfg)) (Allowed (supervisors cfg) fun s a =>
      undisturbed s a = true ∧ settles cfg s a = true) start actions)
    {active : KeyedMap String Version} {supervisor : Supervisor}
    (running : final.phase = .running active supervisor) (delivered : Delivered final)
    (quiet : UmariConvergence.Quiescent supervisor) (name : String) (version : Version) :
    Runs supervisor name version ↔ StoreActive cfg.moduleType final name version := by
  have covers : Covers digest (supervisors cfg) (Settling cfg) final := by
    apply covers_run (settling_onStart cfg) _ run met
    intro active s a t held allowed taken
    exact settling_step held allowed.1 allowed.2 taken
  have runs := converged_of_settling (covers.kept running) quiet name version
  exact runs.trans (intended_delivered covers running delivered name version)

section sample
open UmariSingleActor

def swappedAtStart : List (Action UmariModuleSupervisor.Action) :=
  [stores .projector 1, stores .projector 2, .subscribe, activates .projector 1, .forward,
    .getAllActiveModules, activates .projector 2, .started, .forward, .receive, .receive,
    .own (.compiled 0), .own (.die 0), .own (.linkDied 0)]

theorem swap_follows_store : ∃ final active supervisor,
    exec (step (fun _ => "hash") (supervisors projectors)) start swappedAtStart = some final ∧
      final.phase = .running active supervisor ∧
      ∀ name version, Runs supervisor name version ↔
        StoreActive .projector final name version := by
  have seen : ((exec (step (fun _ => "hash") (supervisors projectors)) start
      swappedAtStart).bind fun final => final.phase.actor.map fun entry =>
        ((final.forwarded, final.store.published.length, final.queued),
          entry.2.compiling, entry.2.notices, entry.2.actors)) =
      some ((2, 2, []), [], [],
        [⟨"transfer", release 1 1 0, 0, false, none, some .replaced, 0, none⟩,
          ⟨"transfer", release 1 2 0, 2, true, none, none, 2, none⟩]) := by decide +kernel
  obtain ⟨final, run, read⟩ := Option.bind_eq_some_iff.mp seen
  obtain ⟨⟨active, supervisor⟩, up, fields⟩ := Option.map_eq_some_iff.mp read
  simp only [Prod.mk.injEq] at fields
  obtain ⟨⟨forwarded, published, queued⟩, compiled, reaped, actors⟩ := fields
  have running := Phase.actor_some.mp up
  refine ⟨final, active, supervisor, run, running, ?_⟩
  apply supervisors_follow_store _ projectors swappedAtStart run (by decide +kernel) running
    ⟨forwarded.trans published.symm, queued⟩
  refine ⟨compiled, reaped, ?_⟩
  intro id a found alive
  have member := List.mem_of_getElem? found
  rw [actors] at member
  simp only [List.mem_cons, List.not_mem_nil, or_false] at member
  rcases member with rfl | rfl
  · exact absurd alive (by decide)
  · rfl

end sample
end supervisors
end UmariDeployments
