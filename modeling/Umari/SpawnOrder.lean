import Umari.ModuleSupervisor

/-!
The order of events, components and spawns. A component is on its way only after the
event that brought it, and an actor is spawned after its component came.
-/
namespace UmariSpawnOrder
open KeyedMaps NumberedLists UmariStateDatabases UmariModuleEvents UmariModuleSupervisor
open UmariModuleSupervisor.Supervisor

def bringsHandled (s : Supervisor) : Action → Bool
  | .reset _ _ component => decide (component ≤ s.published.length)
  | _ => true

/-- Every component on its way to an actor was brought by an event published by `now`. -/
structure Known (compiling restarts : List ModuleCompiled)
    (pending : KeyedMap Nat (String × PendingModule)) (modules : KeyedMap String VersionedModule)
    (now : Nat) : Prop where
  tasks : ∀ task ∈ compiling, task.component ≤ now
  restarts : ∀ message ∈ restarts, message.component ≤ now
  queued : ∀ id name p, pending.lookup id = some (name, p) → p.component ≤ now
  loaded : ∀ name loaded, modules.lookup name = some loaded → loaded.component ≤ now

def ComponentsKnown (s : Supervisor) : Prop :=
  Known s.compiling s.restarts s.pending s.modules s.published.length

section components
variable {compiling restarts : List ModuleCompiled}
  {pending : KeyedMap Nat (String × PendingModule)} {modules : KeyedMap String VersionedModule}
  {now : Nat}

theorem known_later (known : Known compiling restarts pending modules now) :
    Known compiling restarts pending modules (now + 1) := by
  constructor
  · exact fun task member => Nat.le_succ_of_le (known.tasks task member)
  · exact fun message member => Nat.le_succ_of_le (known.restarts message member)
  · exact fun id name p found => Nat.le_succ_of_le (known.queued id name p found)
  · exact fun name loaded found => Nat.le_succ_of_le (known.loaded name loaded found)

theorem known_fewer (known : Known compiling restarts pending modules now)
    {compiling' restarts' : List ModuleCompiled} (tasks : compiling' ⊆ compiling)
    (messages : restarts' ⊆ restarts) : Known compiling' restarts' pending modules now := by
  constructor
  · exact fun task member => known.tasks task (tasks member)
  · exact fun message member => known.restarts message (messages member)
  · exact known.queued
  · exact known.loaded

theorem known_erase (known : Known compiling restarts pending modules now) (name : String) :
    Known compiling restarts pending (modules.erase name) now := by
  constructor
  · exact known.tasks
  · exact known.restarts
  · exact known.queued
  · exact fun other loaded found => known.loaded other loaded (lookup_erase_some.mp found).2

theorem known_taken (known : Known compiling restarts pending modules now) (id : Nat) :
    Known compiling restarts (pending.erase id) modules now := by
  constructor
  · exact known.tasks
  · exact known.restarts
  · exact fun i name p found => known.queued i name p (lookup_erase_some.mp found).2
  · exact known.loaded

theorem known_record (known : Known compiling restarts pending modules now) (name : String)
    {record : VersionedModule} (brought : record.component ≤ now) :
    Known compiling restarts pending (modules.insert name record) now := by
  constructor
  · exact known.tasks
  · exact known.restarts
  · exact known.queued
  · intro other loaded found
    rcases lookup_insert_some.mp found with ⟨_, rfl⟩ | ⟨_, old⟩
    · exact brought
    · exact known.loaded other loaded old

theorem known_queue (known : Known compiling restarts pending modules now) (id : Nat)
    (name : String) {p : PendingModule} (brought : p.component ≤ now) :
    Known compiling restarts (pending.insert id (name, p)) modules now := by
  constructor
  · exact known.tasks
  · exact known.restarts
  · intro other waiting q found
    rcases lookup_insert_some.mp found with ⟨_, same⟩ | ⟨_, kept⟩
    · obtain ⟨_, rfl⟩ := Prod.mk.inj same
      exact brought
    · exact known.queued other waiting q kept
  · exact known.loaded

theorem known_task (known : Known compiling restarts pending modules now) {task : ModuleCompiled}
    (brought : task.component ≤ now) :
    Known (compiling ++ [task]) restarts pending modules now := by
  constructor
  · intro other member
    rcases List.mem_append.mp member with old | new
    · exact known.tasks other old
    · rw [List.mem_singleton.mp new]
      exact brought
  · exact known.restarts
  · exact known.queued
  · exact known.loaded

theorem known_message (known : Known compiling restarts pending modules now)
    {message : ModuleCompiled} (brought : message.component ≤ now) :
    Known compiling (restarts ++ [message]) pending modules now := by
  constructor
  · exact known.tasks
  · intro other member
    rcases List.mem_append.mp member with old | new
    · exact known.restarts other old
    · rw [List.mem_singleton.mp new]
      exact brought
  · exact known.queued
  · exact known.loaded

end components

/-- Actors are numbered in the order they are spawned, each after its component came. -/
structure InTurn (actors : List ModuleActor) (now : Nat) : Prop where
  brought : ∀ (id : Nat) a, actors[id]? = some a → a.component ≤ a.spawned
  spawned : ∀ (id : Nat) a, actors[id]? = some a → a.spawned ≤ now
  ordered : ∀ (i j : Nat) a b, actors[i]? = some a → actors[j]? = some b → i ≤ j →
    a.spawned ≤ b.spawned

def SpawnedInTurn (s : Supervisor) : Prop := InTurn s.actors s.published.length

section actors
variable {actors : List ModuleActor} {now : Nat}

theorem inTurn_later (turn : InTurn actors now) : InTurn actors (now + 1) := by
  constructor
  · exact turn.brought
  · exact fun id a found => Nat.le_succ_of_le (turn.spawned id a found)
  · exact turn.ordered

theorem inTurn_modify (turn : InTurn actors now) {k : Nat} {f : ModuleActor → ModuleActor}
    (sameComponent : ∀ a, (f a).component = a.component)
    (sameSpawned : ∀ a, (f a).spawned = a.spawned) : InTurn (actors.modify k f) now := by
  have back : ∀ {i : Nat} {b : ModuleActor}, (actors.modify k f)[i]? = some b →
      ∃ a, actors[i]? = some a ∧ b.component = a.component ∧ b.spawned = a.spawned := by
    intro i b here
    obtain ⟨a, found, rfl⟩ := entry_modify.mp here
    refine ⟨a, found, ?_⟩
    split
    · exact ⟨sameComponent a, sameSpawned a⟩
    · exact ⟨rfl, rfl⟩
  constructor
  · intro i b here
    obtain ⟨a, found, component, spawned⟩ := back here
    rw [component, spawned]
    exact turn.brought i a found
  · intro i b here
    obtain ⟨a, found, _, spawned⟩ := back here
    rw [spawned]
    exact turn.spawned i a found
  · intro i j b c first second below
    obtain ⟨a, found, _, spawned⟩ := back first
    obtain ⟨a', found', _, spawned'⟩ := back second
    rw [spawned, spawned']
    exact turn.ordered i j a a' found found' below

theorem inTurn_spawn (turn : InTurn actors now) {x : ModuleActor} (brought : x.component ≤ now)
    (spawned : x.spawned = now) : InTurn (actors ++ [x]) now := by
  constructor
  · intro i a here
    rcases entry_snoc.mp here with old | ⟨_, rfl⟩
    · exact turn.brought i a old
    · rw [spawned]
      exact brought
  · intro i a here
    rcases entry_snoc.mp here with old | ⟨_, rfl⟩
    · exact turn.spawned i a old
    · exact Nat.le_of_eq spawned
  · intro i j a b first second below
    rcases entry_snoc.mp second with old | ⟨rfl, rfl⟩
    · rcases entry_snoc.mp first with older | ⟨rfl, _⟩
      · exact turn.ordered i j a b older old below
      · exact absurd (entry_lt old) (by omega)
    · rcases entry_snoc.mp first with older | ⟨_, rfl⟩
      · rw [spawned]
        exact turn.spawned i a older
      · exact Nat.le_refl _

end actors

variable {cfg : Config} {s t : Supervisor}

theorem known_note (known : ComponentsKnown s) (event : ModuleEvent) :
    ComponentsKnown (s.note event) := by
  have next : (s.note event).published.length = s.published.length + 1 := by
    simp [note]
  unfold ComponentsKnown
  rw [next]
  exact known_later known

theorem known_loads {a : Action} {base : Supervisor} {name : String} {p : PendingModule}
    (known : ComponentsKnown s) (brings : bringsHandled s a = true)
    (loads : Loads s a base name p) :
    ComponentsKnown base ∧ p.component ≤ base.published.length := by
  cases loads with
  | compiled index task found =>
    constructor
    · exact known_fewer known (List.eraseIdx_subset) (List.Subset.refl _)
    · exact known.tasks task (List.mem_of_getElem? found)
  | reset => exact ⟨known, of_decide_eq_true brings⟩

theorem known_step {a : Action} (known : ComponentsKnown s) (brings : bringsHandled s a = true)
    (taken : step cfg s a = some t) : ComponentsKnown t := by
  cases moved_of_step taken with
  | foreign event => exact known_note known event
  | alreadyLoaded => exact known_note known _
  | compiles => exact known_task (known_note known _) (Nat.le_refl _)
  | unloaded name => exact known_erase (known_note known (.deactivated cfg.moduleType name)) name
  | notLoaded name => exact known_erase (known_note known (.deactivated cfg.moduleType name)) name
  | deletionQueued name => exact known_erase (known_note known (.deleted cfg.moduleType name)) name
  | deletedNow name => exact known_erase (known_note known (.deleted cfg.moduleType name)) name
  | swapQueued _ base name p old loads =>
    obtain ⟨kept, brought⟩ := known_loads known brings loads
    exact known_queue (known_erase kept name) old.actor name brought
  | loaded _ base name p loads =>
    obtain ⟨kept, brought⟩ := known_loads known brings loads
    exact known_record (known_erase kept name) name brought
  | compileFailed index => exact known_fewer known List.eraseIdx_subset (List.Subset.refl _)
  | restartDropped index => exact known_fewer known (List.Subset.refl _) List.eraseIdx_subset
  | restarted index message found =>
    have brought := known.restarts message (List.mem_of_getElem? found)
    exact known_record (known_fewer known (List.Subset.refl _) List.eraseIdx_subset) message.name
      brought
  | swapped index id name p noticed queued =>
    exact known_record (known_taken known id) name (known.queued id name p queued)
  | removalSkipped => exact known
  | removed => exact known
  | failed index id name loaded _ _ found =>
    unfold handleFailure
    split
    · exact known_message known (known.loaded name loaded found)
    · exact known
  | reaped => exact known
  | started id a =>
    unfold startActor
    dsimp only
    split
    · exact known
    · exact known
  | wrote => exact known
  | died => exact known

theorem inTurn_note (turn : SpawnedInTurn s) (event : ModuleEvent) :
    SpawnedInTurn (s.note event) := by
  have next : (s.note event).published.length = s.published.length + 1 := by
    simp [note]
  unfold SpawnedInTurn
  rw [next]
  exact inTurn_later turn

theorem inTurn_stop (turn : SpawnedInTurn s) (id : Nat) (reason : StopReason) :
    SpawnedInTurn (s.stopGracefully id reason) :=
  inTurn_modify turn (fun _ => rfl) (fun _ => rfl)

theorem inTurn_step {a : Action} (turn : SpawnedInTurn s) (known : ComponentsKnown s)
    (brings : bringsHandled s a = true) (taken : step cfg s a = some t) : SpawnedInTurn t := by
  cases moved_of_step taken with
  | foreign event => exact inTurn_note turn event
  | alreadyLoaded => exact inTurn_note turn _
  | compiles name version => exact inTurn_note turn (.activated cfg.moduleType name version)
  | unloaded name loaded =>
    exact inTurn_stop (inTurn_note turn (.deactivated cfg.moduleType name)) loaded.actor _
  | notLoaded name => exact inTurn_note turn (.deactivated cfg.moduleType name)
  | deletionQueued name loaded =>
    exact inTurn_stop (inTurn_note turn (.deleted cfg.moduleType name)) loaded.actor .deleted
  | deletedNow name => exact inTurn_note turn (.deleted cfg.moduleType name)
  | swapQueued _ base name p old loads =>
    cases loads with
    | compiled => exact inTurn_stop turn old.actor .replaced
    | reset => exact inTurn_stop turn old.actor .replaced
  | loaded _ base name p loads =>
    obtain ⟨_, brought⟩ := known_loads known brings loads
    cases loads with
    | compiled => exact inTurn_spawn turn brought rfl
    | reset => exact inTurn_spawn turn brought rfl
  | compileFailed => exact turn
  | restartDropped => exact turn
  | restarted index message found =>
    exact inTurn_spawn turn (known.restarts message (List.mem_of_getElem? found)) rfl
  | swapped index id name p noticed queued =>
    exact inTurn_spawn turn (known.queued id name p queued) rfl
  | removalSkipped => exact turn
  | removed => exact turn
  | failed =>
    unfold handleFailure
    split
    · exact turn
    · exact turn
  | reaped => exact turn
  | started id a =>
    unfold startActor
    dsimp only
    split
    · exact inTurn_modify turn (fun _ => rfl) (fun _ => rfl)
    · exact inTurn_modify turn (fun _ => rfl) (fun _ => rfl)
  | wrote => exact turn
  | died => exact inTurn_modify turn (fun _ => rfl) (fun _ => rfl)

theorem idle_in_turn : ComponentsKnown idle ∧ SpawnedInTurn idle := by
  constructor
  · constructor
    · exact fun task member => absurd member List.not_mem_nil
    · exact fun message member => absurd member List.not_mem_nil
    · exact fun id name p found => nomatch found
    · exact fun name loaded found => nomatch found
  · constructor
    · exact fun id a found => absurd found (by simp [idle])
    · exact fun id a found => absurd found (by simp [idle])
    · exact fun i j a b found => absurd found (by simp [idle])

theorem onStart_in_turn (active : KeyedMap String Version) :
    ComponentsKnown (onStart active) ∧ SpawnedInTurn (onStart active) := by
  apply onStart_induction (P := fun s => ComponentsKnown s ∧ SpawnedInTurn s) idle_in_turn
  intro s name version held _
  obtain ⟨known, turn⟩ := held
  constructor
  · exact known_record (known_erase known name) name (Nat.zero_le _)
  · exact inTurn_spawn turn (Nat.zero_le _) rfl

end UmariSpawnOrder
