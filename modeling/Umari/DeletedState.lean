import Umari.SpawnOrder
import Umari.StateFiles

/-!
What a deleted module leaves behind. The removal of its database waits for the link
of the stopped actor to die, and is skipped when the name was taken meanwhile: the
module that took it then runs on the database of the deleted one. When nothing is
spawned under the name before that link dies, nothing is left behind.
-/
namespace UmariDeletedState
open GuardedRuns KeyedMaps NumberedLists PositionedLogs UmariStateDatabases UmariModuleEvents
open UmariModuleSupervisor UmariModuleSupervisor.Supervisor UmariStateFiles UmariSpawnOrder

structure Disk where
  files : String → Option Nat
  inodes : List StateDb
  sourced : ∀ db ∈ inodes, Sourced db

def Disk.mount (disk : Disk) (s : Supervisor) : Supervisor :=
  { s with files := disk.files, inodes := disk.inodes }

def DeletedAt (cfg : Config) (name : String) (published : List ModuleEvent) (number : Nat) : Prop :=
  (number, ModuleEvent.deleted cfg.moduleType name) ∈ entries published

/-- An actor for a later activation than a deletion, and any actor spawned after it,
    starts on a database with nothing from before, a stored position included. -/
def CleanStarts (cfg : Config) (name : String) (published : List ModuleEvent)
    (actors : List ModuleActor) : Prop :=
  ∀ (id : Nat) a db, actors[id]? = some a → a.name = name → a.startedOn = some db →
    ∀ number, DeletedAt cfg name published number →
      number < a.component ∨ number ≤ a.spawned → HoldsSince number db ∧ Sourced db

def StartsClean (cfg : Config) (name : String) (s : Supervisor) : Prop :=
  CleanStarts cfg name s.published s.actors

def removalPending (s : Supervisor) (name : String) : Bool :=
  anyEntry s.pendingDeletions fun _ other => decide (other = name)

def spawnsFor (s : Supervisor) (name : String) : Action → Bool
  | .compiled index => (s.compiling[index]?).any fun task => decide (task.name = name)
  | .reset other _ _ => decide (other = name)
  | .restart index =>
    (s.restarts[index]?).any fun message =>
      decide (message.name = name) && (s.backoff.lookup name).isSome
  | .linkDied index =>
    ((s.notices[index]?).bind s.pending.lookup).any fun entry => decide (entry.1 = name)
  | _ => false

def waitsForRemoval (name : String) (s : Supervisor) (a : Action) : Bool :=
  !(removalPending s name && spawnsFor s name a)

def leavesNothing (name : String) (s : Supervisor) (a : Action) : Bool :=
  waitsForRemoval name s a && bringsHandled s a

def Unspawned (name : String) (pendingDeletions : KeyedMap Nat String)
    (actors : List ModuleActor) : Prop :=
  ∀ id, pendingDeletions.lookup id = some name →
    ∀ (j : Nat) b, actors[j]? = some b → b.name = name → j ≤ id

section unspawned
variable {name : String} {pendingDeletions : KeyedMap Nat String} {actors : List ModuleActor}

theorem unspawned_modify (held : Unspawned name pendingDeletions actors) {k : Nat}
    {f : ModuleActor → ModuleActor} (sameName : ∀ a, (f a).name = a.name) :
    Unspawned name pendingDeletions (actors.modify k f) := by
  intro id waiting j b here named
  obtain ⟨a, found, rfl⟩ := entry_modify.mp here
  apply held id waiting j a found
  split at named
  · exact (sameName a).symm.trans named
  · exact named

theorem unspawned_erase (held : Unspawned name pendingDeletions actors) (id : Nat) :
    Unspawned name (pendingDeletions.erase id) actors :=
  fun other waiting => held other (lookup_erase_some.mp waiting).2

theorem unspawned_snoc (held : Unspawned name pendingDeletions actors) {x : ModuleActor}
    (free : x.name = name → ∀ id, pendingDeletions.lookup id ≠ some name) :
    Unspawned name pendingDeletions (actors ++ [x]) := by
  intro id waiting j b here named
  rcases entry_snoc.mp here with old | ⟨_, rfl⟩
  · exact held id waiting j b old named
  · exact absurd waiting (free named id)

theorem unspawned_queue (held : Unspawned name pendingDeletions actors) {id : Nat}
    {other : String} (newest : ∀ (j : Nat) b, actors[j]? = some b → b.name = other → j ≤ id) :
    Unspawned name (pendingDeletions.insert id other) actors := by
  intro i waiting j b here named
  rcases lookup_insert_some.mp waiting with ⟨rfl, rfl⟩ | ⟨_, old⟩
  · exact newest j b here named
  · exact held i old j b here named

end unspawned

/-- The removal that a deletion asked for still waits, for an actor from before it. -/
def Awaited (name : String) (pendingDeletions : KeyedMap Nat String)
    (actors : List ModuleActor) (number : Nat) : Prop :=
  ∃ id a, pendingDeletions.lookup id = some name ∧ actors[id]? = some a ∧ a.spawned < number

def Cleared (cfg : Config) (name : String) (s : Supervisor) : Prop :=
  ∀ number, DeletedAt cfg name s.published number →
    Awaited name s.pendingDeletions s.actors number ∨ Fresh s name number

structure Inv (cfg : Config) (name : String) (s : Supervisor) : Prop where
  registered : s.Registered
  known : ComponentsKnown s
  turn : SpawnedInTurn s
  sourced : AllSourced s
  unspawned : Unspawned name s.pendingDeletions s.actors
  clear : Cleared cfg name s
  clean : StartsClean cfg name s

variable {cfg : Config} {s t : Supervisor} {name : String}

theorem unrecorded (reg : s.Registered) (held : Unspawned name s.pendingDeletions s.actors)
    {id : Nat} (waiting : s.pendingDeletions.lookup id = some name) :
    s.modules.lookup name = none := by
  cases found : s.modules.lookup name with
  | none => rfl
  | some loaded =>
    obtain ⟨a, live, named, unasked⟩ := reg.loaded name loaded found
    obtain ⟨b, stopped, named', asked⟩ := reg.deleting id name waiting
    have below := held id waiting loaded.actor a live named
    have above := reg.newest name loaded found id b stopped named'
    obtain rfl : loaded.actor = id := by omega
    obtain rfl := Option.some.inj (live.symm.trans stopped)
    exact absurd (unasked.symm.trans asked) (by simp)

theorem none_waits {a : Action} (waits : waitsForRemoval name s a = true)
    (spawns : spawnsFor s name a = true) (id : Nat) :
    s.pendingDeletions.lookup id ≠ some name := by
  intro waiting
  have pending : removalPending s name = true :=
    anyEntry_iff.mpr ⟨id, name, waiting, decide_eq_true rfl⟩
  simp [waitsForRemoval, pending, spawns] at waits

theorem spawnsFor_loads {a : Action} {base : Supervisor} {p : PendingModule}
    (loads : Loads s a base name p) : spawnsFor s name a = true := by
  cases loads with
  | compiled index task found => simp [spawnsFor, found]
  | reset => simp [spawnsFor]

theorem unspawned_step {a : Action} (reg : s.Registered)
    (held : Unspawned name s.pendingDeletions s.actors)
    (waits : waitsForRemoval name s a = true) (taken : step cfg s a = some t) :
    Unspawned name t.pendingDeletions t.actors := by
  cases moved_of_step taken with
  | foreign => exact held
  | alreadyLoaded => exact held
  | compiles => exact held
  | unloaded => exact unspawned_modify held (fun _ => rfl)
  | notLoaded => exact held
  | deletionQueued other loaded found =>
    have queued := unspawned_queue held (reg.newest other loaded found)
    exact unspawned_modify queued (fun _ => rfl)
  | deletedNow => exact held
  | swapQueued _ base other p old loads =>
    cases loads with
    | compiled => exact unspawned_modify held (fun _ => rfl)
    | reset => exact unspawned_modify held (fun _ => rfl)
  | loaded _ base other p loads =>
    have free : other = name → ∀ id, s.pendingDeletions.lookup id ≠ some name := by
      intro same
      subst same
      exact none_waits waits (spawnsFor_loads loads)
    cases loads with
    | compiled => exact unspawned_snoc held free
    | reset => exact unspawned_snoc held free
  | compileFailed => exact held
  | restartDropped => exact held
  | restarted index message found retried =>
    apply unspawned_snoc held
    intro same
    have named : message.name = name := same
    apply none_waits waits
    have backed := Option.isSome_iff_ne_none.mpr (named ▸ retried)
    simp [spawnsFor, found, named, backed]
  | swapped index id other p noticed queued =>
    apply unspawned_snoc held
    intro same
    have named : other = name := same
    apply none_waits waits
    simp [spawnsFor, noticed, queued, named]
  | removalSkipped => exact unspawned_erase held _
  | removed => exact unspawned_erase held _
  | failed =>
    unfold handleFailure
    split
    · exact held
    · exact held
  | reaped => exact held
  | started id a =>
    unfold startActor
    dsimp only
    split
    · exact unspawned_modify held (fun _ => rfl)
    · exact unspawned_modify held (fun _ => rfl)
  | wrote => exact held
  | died => exact unspawned_modify held (fun _ => rfl)

theorem deletedAt_note {published : List ModuleEvent} {event : ModuleEvent} {number : Nat}
    (deleted : DeletedAt cfg name (published ++ [event]) number) :
    DeletedAt cfg name published number ∨
      (number = published.length + 1 ∧ event = .deleted cfg.moduleType name) := by
  unfold DeletedAt at deleted
  rw [entries_append] at deleted
  rcases List.mem_append.mp deleted with old | new
  · exact Or.inl old
  · simp only [entriesFrom, List.mem_singleton, Prod.mk.injEq] at new
    exact Or.inr ⟨new.1, new.2.symm⟩

theorem awaited_modify {pendingDeletions : KeyedMap Nat String} {actors : List ModuleActor}
    {number : Nat} (held : Awaited name pendingDeletions actors number) {k : Nat}
    {f : ModuleActor → ModuleActor} (sameSpawned : ∀ a, (f a).spawned = a.spawned) :
    Awaited name pendingDeletions (actors.modify k f) number := by
  obtain ⟨id, a, waiting, found, before⟩ := held
  refine ⟨id, _, waiting, entry_modify.mpr ⟨a, found, rfl⟩, ?_⟩
  split
  · rw [sameSpawned]
    exact before
  · exact before

theorem awaited_snoc {pendingDeletions : KeyedMap Nat String} {actors : List ModuleActor}
    {number : Nat} (held : Awaited name pendingDeletions actors number) (x : ModuleActor) :
    Awaited name pendingDeletions (actors ++ [x]) number := by
  obtain ⟨id, a, waiting, found, before⟩ := held
  exact ⟨id, a, waiting, entry_snoc.mpr (Or.inl found), before⟩

theorem awaited_erase {pendingDeletions : KeyedMap Nat String} {actors : List ModuleActor}
    {number : Nat} (held : Awaited name pendingDeletions actors number) {id : Nat}
    (another : pendingDeletions.lookup id ≠ some name) :
    Awaited name (pendingDeletions.erase id) actors number := by
  obtain ⟨i, a, waiting, found, before⟩ := held
  refine ⟨i, a, lookup_erase_some.mpr ⟨?_, waiting⟩, found, before⟩
  intro same
  subst same
  exact another waiting

theorem cleared_note (clear : Cleared cfg name s) {event : ModuleEvent}
    (kept : event ≠ .deleted cfg.moduleType name) : Cleared cfg name (s.note event) := by
  intro number deleted
  rcases deletedAt_note deleted with old | ⟨_, same⟩
  · exact clear number old
  · exact absurd same kept

theorem cleared_stop (clear : Cleared cfg name s) (id : Nat) (reason : StopReason) :
    Cleared cfg name (s.stopGracefully id reason) := by
  intro number deleted
  rcases clear number deleted with awaited | fresh
  · exact Or.inl (awaited_modify awaited fun _ => rfl)
  · exact Or.inr fresh

theorem cleared_spawn (clear : Cleared cfg name s) (other : String) (p : PendingModule) :
    Cleared cfg name (s.spawnModule other p) := by
  intro number deleted
  rcases clear number deleted with awaited | fresh
  · exact Or.inl (awaited_snoc awaited _)
  · exact Or.inr fun db found => fresh db (stateDb_spawned found)

theorem cleared_queueDeletion (reg : s.Registered) (turn : SpawnedInTurn s)
    (clear : Cleared cfg name s) {other : String} {loaded : VersionedModule}
    (found : s.modules.lookup other = some loaded) :
    Cleared cfg name
      (((s.note (.deleted cfg.moduleType other)).forget other).queueDeletion other loaded) := by
  obtain ⟨a, live, _, unasked⟩ := reg.loaded other loaded found
  intro number deleted
  rcases deletedAt_note deleted with old | ⟨here, same⟩
  · rcases clear number old with awaited | fresh
    · obtain ⟨id, b, waiting, held, before⟩ := awaited
      -- the actor of a removal was asked to stop, the recorded one was not
      have different : id ≠ loaded.actor := by
        intro equal
        subst equal
        obtain ⟨c, stopped, _, asked⟩ := reg.deleting _ name waiting
        obtain rfl := Option.some.inj (live.symm.trans stopped)
        exact absurd (unasked.symm.trans asked) (by simp)
      have queued : Awaited name (s.pendingDeletions.insert loaded.actor other) s.actors number :=
        ⟨id, b, lookup_insert_some.mpr (Or.inr ⟨different, waiting⟩), held, before⟩
      exact Or.inl (awaited_modify queued fun _ => rfl)
    · exact Or.inr fresh
  · obtain rfl : other = name := by simpa using same
    have before := turn.spawned loaded.actor a live
    have queued : Awaited other (s.pendingDeletions.insert loaded.actor other) s.actors number :=
      ⟨loaded.actor, a, lookup_insert_some.mpr (Or.inl ⟨rfl, rfl⟩), live, by omega⟩
    exact Or.inl (awaited_modify queued fun _ => rfl)

theorem cleared_remove (clear : Cleared cfg name s) (other : String) :
    Cleared cfg name
      (((s.note (.deleted cfg.moduleType other)).forget other).removeStateFiles other) := by
  intro number deleted
  by_cases same : other = name
  · subst same
    apply Or.inr
    intro db found
    rw [stateDb_unlinked] at found
    exact absurd found (by simp)
  · rcases deletedAt_note deleted with old | ⟨_, event⟩
    · rcases clear number old with awaited | fresh
      · exact Or.inl awaited
      · exact Or.inr fun db found => fresh db (stateDb_removed found)
    · exact absurd (by simpa using event) same

theorem cleared_start (clear : Cleared cfg name s) (id : Nat) (a : ModuleActor) :
    Cleared cfg name (s.startActor id a) := by
  obtain ⟨published, deletions, inode, actors⟩ := startActor_actors s id a
  intro number deleted
  rw [published] at deleted
  rw [deletions, actors]
  rcases clear number deleted with awaited | fresh
  · exact Or.inl (awaited_modify awaited fun _ => rfl)
  · exact Or.inr (fresh_start fresh id a)

theorem cleared_step {a : Action} (reg : s.Registered) (turn : SpawnedInTurn s)
    (held : Unspawned name s.pendingDeletions s.actors) (clear : Cleared cfg name s)
    (taken : step cfg s a = some t) : Cleared cfg name t := by
  cases moved_of_step taken with
  | foreign event other =>
    apply cleared_note clear
    intro same
    subst same
    exact other rfl
  | alreadyLoaded => exact cleared_note clear (by simp)
  | compiles other version =>
    have noted : Cleared cfg name (s.note (.activated cfg.moduleType other version)) :=
      cleared_note clear (by simp)
    exact noted
  | unloaded other loaded =>
    have noted : Cleared cfg name (s.note (.deactivated cfg.moduleType other)) :=
      cleared_note clear (by simp)
    exact cleared_stop (s := (s.note (.deactivated cfg.moduleType other)).forget other) noted
      loaded.actor .deactivated
  | notLoaded other =>
    have noted : Cleared cfg name (s.note (.deactivated cfg.moduleType other)) :=
      cleared_note clear (by simp)
    exact noted
  | deletionQueued other loaded found => exact cleared_queueDeletion reg turn clear found
  | deletedNow other => exact cleared_remove clear other
  | swapQueued _ base other p old loads =>
    cases loads with
    | compiled => exact cleared_stop (s := s) clear old.actor .replaced
    | reset => exact cleared_stop (s := s) clear old.actor .replaced
  | loaded _ base other p loads =>
    apply cleared_spawn
    cases loads with
    | compiled => exact clear
    | reset => exact clear
  | compileFailed => exact clear
  | restartDropped => exact clear
  | restarted =>
    apply cleared_spawn
    exact clear
  | swapped =>
    apply cleared_spawn
    exact clear
  | removalSkipped index id other _ _ deleting recorded =>
    intro number deleted
    rcases clear number deleted with awaited | fresh
    · apply Or.inl
      apply awaited_erase awaited
      intro waiting
      obtain rfl := Option.some.inj (deleting.symm.trans waiting)
      exact recorded (unrecorded reg held waiting)
    · exact Or.inr fresh
  | removed index id other _ _ deleting =>
    intro number deleted
    by_cases same : other = name
    · subst same
      apply Or.inr
      intro db found
      rw [stateDb_unlinked] at found
      exact absurd found (by simp)
    · rcases clear number deleted with awaited | fresh
      · apply Or.inl
        apply awaited_erase awaited
        intro waiting
        exact same (Option.some.inj (deleting.symm.trans waiting))
      · exact Or.inr fun db found => fresh db (stateDb_removed found)
  | failed =>
    unfold handleFailure
    split
    · exact clear
    · exact clear
  | reaped => exact clear
  | started id a => exact cleared_start clear id a
  | wrote id position inode =>
    intro number deleted
    rcases clear number deleted with awaited | fresh
    · exact Or.inl awaited
    · exact Or.inr (fresh_write fresh (entries_bounds deleted).2)
  | died =>
    intro number deleted
    rcases clear number deleted with awaited | fresh
    · exact Or.inl (awaited_modify awaited fun _ => rfl)
    · exact Or.inr fresh

theorem clean_note (turn : SpawnedInTurn s) (clean : StartsClean cfg name s)
    (event : ModuleEvent) : StartsClean cfg name (s.note event) := by
  intro id a db found named on number deleted after
  rcases deletedAt_note deleted with old | ⟨last, _⟩
  · exact clean id a db found named on number old after
  · have brought := turn.brought id a found
    have spawned := turn.spawned id a found
    rcases after with later | later
    · omega
    · omega

theorem clean_modify {published : List ModuleEvent} {actors : List ModuleActor}
    (clean : CleanStarts cfg name published actors) {k : Nat} {f : ModuleActor → ModuleActor}
    (sameName : ∀ a, (f a).name = a.name) (sameComponent : ∀ a, (f a).component = a.component)
    (sameSpawned : ∀ a, (f a).spawned = a.spawned)
    (sameStart : ∀ a, (f a).startedOn = a.startedOn) :
    CleanStarts cfg name published (actors.modify k f) := by
  intro id b db here named on number deleted after
  obtain ⟨a, found, rfl⟩ := entry_modify.mp here
  split at named
  · rename_i same
    rw [if_pos same, sameStart] at on
    rw [if_pos same, sameComponent, sameSpawned] at after
    exact clean id a db found ((sameName a).symm.trans named) on number deleted after
  · rename_i other
    rw [if_neg other] at on after
    exact clean id a db found named on number deleted after

theorem clean_spawn {published : List ModuleEvent} {actors : List ModuleActor}
    (clean : CleanStarts cfg name published actors) {x : ModuleActor}
    (unstarted : x.startedOn = none) : CleanStarts cfg name published (actors ++ [x]) := by
  intro id a db here named on
  rcases entry_snoc.mp here with old | ⟨_, rfl⟩
  · exact clean id a db old named on
  · exact absurd (unstarted.symm.trans on) (by simp)

/-- An actor of the name spawned since a deletion starts when the removal is done: the
    actor a removal waits for is the newest of the name. -/
theorem clean_start (turn : SpawnedInTurn s) (sourced : AllSourced s)
    (held : Unspawned name s.pendingDeletions s.actors) (clear : Cleared cfg name s)
    (clean : StartsClean cfg name s) {id : Nat} {a : ModuleActor}
    (found : s.actors[id]? = some a) : StartsClean cfg name (s.startActor id a) := by
  obtain ⟨published, _, inode, actors⟩ := startActor_actors s id a
  unfold StartsClean
  rw [published, actors]
  intro j b db here named on number deleted after
  obtain ⟨old, live, rfl⟩ := entry_modify.mp here
  by_cases same : id = j
  · subst same
    obtain rfl := Option.some.inj (found.symm.trans live)
    rw [if_pos rfl] at named on after
    obtain rfl := Option.some.inj on
    have since : number ≤ a.spawned := by
      have brought := turn.brought id a found
      rcases after with later | later
      · have component : number < a.component := later
        omega
      · exact later
    constructor
    · apply since_open
      rcases clear number deleted with ⟨i, waiting, queued, stopped, before⟩ | fresh
      · have below := held i queued id a found named
        have ordered := turn.ordered id i a waiting found stopped below
        omega
      · apply fresh_found
        have here : a.name = name := named
        rw [here]
        exact fresh
    · exact sourced_open (sourced_found sourced a) a.name a.version
  · rw [if_neg same] at named on after
    exact clean j old db live named on number deleted after

theorem clean_step {a : Action} (turn : SpawnedInTurn s)
    (sourced : AllSourced s) (held : Unspawned name s.pendingDeletions s.actors)
    (clear : Cleared cfg name s) (clean : StartsClean cfg name s)
    (taken : step cfg s a = some t) : StartsClean cfg name t := by
  have stops : ∀ {published : List ModuleEvent} {actors : List ModuleActor} (id : Nat)
      (reason : StopReason), CleanStarts cfg name published actors →
      CleanStarts cfg name published (actors.modify id fun a => { a with asked := some reason }) :=
    fun _ _ before => clean_modify before (fun _ => rfl) (fun _ => rfl) (fun _ => rfl)
      (fun _ => rfl)
  cases moved_of_step taken with
  | foreign event => exact clean_note turn clean event
  | alreadyLoaded => exact clean_note turn clean _
  | compiles other version =>
    exact clean_note turn clean (.activated cfg.moduleType other version)
  | unloaded other loaded =>
    exact stops loaded.actor .deactivated (clean_note turn clean (.deactivated _ other))
  | notLoaded other => exact clean_note turn clean (.deactivated cfg.moduleType other)
  | deletionQueued other loaded =>
    exact stops loaded.actor .deleted (clean_note turn clean (.deleted _ other))
  | deletedNow other => exact clean_note turn clean (.deleted cfg.moduleType other)
  | swapQueued _ base other p old loads =>
    cases loads with
    | compiled => exact stops old.actor .replaced clean
    | reset => exact stops old.actor .replaced clean
  | loaded _ base other p loads =>
    cases loads with
    | compiled => exact clean_spawn clean rfl
    | reset => exact clean_spawn clean rfl
  | compileFailed => exact clean
  | restartDropped => exact clean
  | restarted => exact clean_spawn clean rfl
  | swapped => exact clean_spawn clean rfl
  | removalSkipped => exact clean
  | removed => exact clean
  | failed =>
    unfold handleFailure
    split
    · exact clean
    · exact clean
  | reaped => exact clean
  | started id a found => exact clean_start turn sourced held clear clean found
  | wrote => exact clean
  | died => exact clean_modify clean (fun _ => rfl) (fun _ => rfl) (fun _ => rfl) (fun _ => rfl)

theorem inv_step {a : Action} (inv : Inv cfg name s) (met : leavesNothing name s a = true)
    (taken : step cfg s a = some t) : Inv cfg name t where
  registered := registered_step inv.registered taken
  known := known_step inv.known ((Bool.and_eq_true _ _).mp met).2 taken
  turn := inTurn_step inv.turn inv.known ((Bool.and_eq_true _ _).mp met).2 taken
  sourced := sourced_step inv.sourced taken
  unspawned := unspawned_step inv.registered inv.unspawned ((Bool.and_eq_true _ _).mp met).1 taken
  clear := cleared_step inv.registered inv.turn inv.unspawned inv.clear taken
  clean := clean_step inv.turn inv.sourced inv.unspawned inv.clear inv.clean taken

theorem onStart_quiet (active : KeyedMap String Version) :
    (onStart active).published = [] ∧ (onStart active).pendingDeletions = ∅ := by
  apply onStart_induction (P := fun s => s.published = [] ∧ s.pendingDeletions = ∅)
  · exact ⟨rfl, rfl⟩
  · exact fun s name version held _ => held

theorem inv_onStart (cfg : Config) (name : String) (active : KeyedMap String Version)
    (disk : Disk) : Inv cfg name (disk.mount (onStart active)) := by
  obtain ⟨unpublished, empty⟩ := onStart_quiet active
  have undeleted : ∀ number, ¬ DeletedAt cfg name (onStart active).published number := by
    intro number deleted
    rw [unpublished] at deleted
    exact absurd deleted List.not_mem_nil
  constructor
  · exact registered_onStart active
  · exact (onStart_in_turn active).1
  · exact (onStart_in_turn active).2
  · exact disk.sourced
  · intro id waiting
    have queued : (onStart active).pendingDeletions.lookup id = some name := waiting
    rw [empty] at queued
    exact nomatch queued
  · exact fun number deleted => absurd deleted (undeleted number)
  · exact fun id a db found named on number deleted => absurd deleted (undeleted number)

/-- Every run that spawns nothing under a name while the removal of its database waits,
    and whose resets bring bytes of handled events: an actor of the name starts on
    nothing from before a deletion that came before it. -/
theorem starts_clean_after_removal (cfg : Config) (name : String)
    (active : KeyedMap String Version) (disk : Disk) (actions : List Action)
    (met : Meets (step cfg) (fun s a => leavesNothing name s a = true)
      (disk.mount (onStart active)) actions) :
    Always (step cfg) (StartsClean cfg name) (disk.mount (onStart active)) actions :=
  always_of_meets (fun inv met taken => inv_step inv met taken) (fun inv => inv.clean)
    (inv_onStart cfg name active disk) met

section sample

def projectors : Config := ⟨.projector, false⟩

def blank : Disk where
  files := fun _ => none
  inodes := []
  sourced := fun _ member => absurd member List.not_mem_nil

def activate : Action := .publish (.activated .projector "ledger" (release 1 0 0))

def deleting : List Action :=
  [activate, .compiled 0, .start 0, .write 0 (some 5),
    .publish (.deleted .projector "ledger"), activate]

theorem recreated_after_removal :
    (exec (step projectors) (blank.mount (onStart ∅))
      (deleting ++ [.die 0, .linkDied 0, .compiled 0, .start 1])).map
        (fun final => (final.actors.map (·.component), final.stateDb "ledger")) =
          some ([1, 3], some ⟨some ⟨"ledger", release 1 0 0, none⟩, []⟩) ∧
    Always (step projectors) (StartsClean projectors "ledger") (blank.mount (onStart ∅))
      (deleting ++ [.die 0, .linkDied 0, .compiled 0, .start 1]) :=
  ⟨by decide +kernel,
    starts_clean_after_removal projectors "ledger" ∅ blank _ (by decide +kernel)⟩

set_option synthInstance.maxSize 512 in
/-- The module that was created again compiles before the link of the deleted one dies:
    the removal is skipped, and it starts at position five. -/
theorem recreated_before_removal : ∃ final,
    exec (step projectors) (blank.mount (onStart ∅))
      (deleting ++ [.compiled 0, .die 0, .linkDied 0, .start 1]) = some final ∧
        ¬ StartsClean projectors "ledger" final := by
  have seen : (exec (step projectors) (blank.mount (onStart ∅))
      (deleting ++ [.compiled 0, .die 0, .linkDied 0, .start 1])).map
        (fun final => (final.published,
          final.actors.map fun a => (a.name, a.component, a.startedOn.map (·.tables)))) =
        some ([.activated .projector "ledger" (release 1 0 0), .deleted .projector "ledger",
            .activated .projector "ledger" (release 1 0 0)],
          [("ledger", 1, some []), ("ledger", 3, some [⟨1, some 5⟩])]) := by decide +kernel
  obtain ⟨final, run, fields⟩ := Option.map_eq_some_iff.mp seen
  obtain ⟨published, actors⟩ := Prod.mk.inj fields
  refine ⟨final, run, ?_⟩
  intro clean
  have second : (final.actors.map fun a => (a.name, a.component, a.startedOn.map (·.tables)))[1]? =
      some ("ledger", 3, some [⟨1, some 5⟩]) := by
    rw [actors]
    rfl
  rw [List.getElem?_map] at second
  obtain ⟨a, found, same⟩ := Option.map_eq_some_iff.mp second
  simp only [Prod.mk.injEq] at same
  obtain ⟨db, started, tables⟩ := Option.map_eq_some_iff.mp same.2.2
  have deleted : DeletedAt projectors "ledger" final.published 2 := by
    unfold DeletedAt
    rw [published]
    decide
  have later : 2 < a.component := by omega
  obtain ⟨since, _⟩ := clean 1 a db found same.1 started 2 deleted (Or.inl later)
  have old : (⟨1, some 5⟩ : Write) ∈ db.tables := by
    rw [tables]
    exact List.mem_singleton.mpr rfl
  exact absurd (since _ old) (by decide)

end sample
end UmariDeletedState
