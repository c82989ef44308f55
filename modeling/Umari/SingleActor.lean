import Umari.ModuleSupervisor

/-!
At most one live actor per module name. `pending` holds the swap of a name back
until the replaced actor has died; it does so as long as nothing else is loaded
under the name meanwhile.
-/
namespace UmariSingleActor
open GuardedRuns KeyedMaps NumberedLists UmariStateDatabases UmariModuleEvents UmariModuleSupervisor
open UmariModuleSupervisor.Supervisor

def Running (s : Supervisor) (id : Nat) (a : ModuleActor) : Prop :=
  s.actors[id]? = some a ∧ a.alive = true ∧ a.asked = none

structure SingleLive (s : Supervisor) : Prop where
  unique : ∀ i j a b, Running s i a → Running s j b → a.name = b.name → i = j
  recorded : ∀ id a, Running s id a →
    ∃ loaded, s.modules.lookup a.name = some loaded ∧ loaded.actor = id
  -- nothing was spawned under the name of a replaced actor that still lives
  successor : ∀ (i : Nat) a, s.actors[i]? = some a → a.alive = true → a.asked = some .replaced →
    ∀ (j : Nat) b, s.actors[j]? = some b → b.name = a.name → j ≤ i

def swapPending (s : Supervisor) (name : String) : Bool :=
  anyEntry s.pending fun _ entry => decide (entry.1 = name)

/-- No compilation or reset of a name is handled while a swap of the name waits. -/
def loadsAlone (s : Supervisor) : Action → Bool
  | .compiled index =>
    match s.compiling[index]? with
    | none => true
    | some task => !swapPending s task.name
  | .reset name _ _ => !swapPending s name
  | _ => true

/-- The registers of the names against the live actors, and the swaps that wait. -/
structure Orderly (modules : KeyedMap String VersionedModule)
    (pending : KeyedMap Nat (String × PendingModule))
    (backoff : KeyedMap String ModuleBackoffState) (actors : List ModuleActor) : Prop where
  current : ∀ (id : Nat) a, actors[id]? = some a → a.alive = true → a.asked = none →
    ∃ loaded, modules.lookup a.name = some loaded ∧ loaded.actor = id
  replaced : ∀ (id : Nat) a, actors[id]? = some a → a.alive = true → a.asked = some .replaced →
    ∃ p, pending.lookup id = some (a.name, p)
  waiting : ∀ id name p, pending.lookup id = some (name, p) →
    modules.lookup name = none ∧ backoff.lookup name = none
  alone : ∀ i j name p q, pending.lookup i = some (name, p) →
    pending.lookup j = some (name, q) → i = j
  latest : ∀ id name p, pending.lookup id = some (name, p) →
    ∀ (j : Nat) b, actors[j]? = some b → b.name = name → j ≤ id

def InOrder (s : Supervisor) : Prop := Orderly s.modules s.pending s.backoff s.actors

structure Inv (s : Supervisor) : Prop where
  registered : s.Registered
  reported : Reported s.notices s.actors
  orderly : InOrder s

theorem swapPending_false {s : Supervisor} {name : String} :
    swapPending s name = false ↔ ∀ id p, s.pending.lookup id ≠ some (name, p) := by
  rw [swapPending, anyEntry_false]
  constructor
  · intro none id p found
    simpa using none id (name, p) found
  · rintro none id ⟨other, p⟩ found
    apply decide_eq_false
    rintro rfl
    exact none id p found

theorem single_of_inv {s : Supervisor} (inv : Inv s) : SingleLive s := by
  constructor
  · intro i j a b left right same
    obtain ⟨loaded, found, rfl⟩ := inv.orderly.current i a left.1 left.2.1 left.2.2
    obtain ⟨other, found', rfl⟩ := inv.orderly.current j b right.1 right.2.1 right.2.2
    rw [same] at found
    rw [Option.some.inj (found.symm.trans found')]
  · intro id a running
    exact inv.orderly.current id a running.1 running.2.1 running.2.2
  · intro i a found alive asked j b other named
    obtain ⟨p, queued⟩ := inv.orderly.replaced i a found alive asked
    exact inv.orderly.latest i a.name p queued j b other named

/-- Every live actor that nobody asked to stop is the recorded one of its name. -/
def Listed (modules : KeyedMap String VersionedModule) (actors : List ModuleActor) : Prop :=
  ∀ (id : Nat) a, actors[id]? = some a → a.alive = true → a.asked = none →
    ∃ loaded, modules.lookup a.name = some loaded ∧ loaded.actor = id

section listed
variable {modules : KeyedMap String VersionedModule} {actors : List ModuleActor}

theorem asked_back {k i : Nat} {reason : StopReason} {b : ModuleActor}
    (here : (actors.modify k fun a => { a with asked := some reason })[i]? = some b) :
    ∃ a, actors[i]? = some a ∧ b.name = a.name ∧ b.alive = a.alive ∧
      ((k = i ∧ b.asked = some reason) ∨ (k ≠ i ∧ b.asked = a.asked)) := by
  obtain ⟨a, found, rfl⟩ := entry_modify.mp here
  refine ⟨a, found, ?_⟩
  by_cases same : k = i
  · rw [if_pos same]
    exact ⟨rfl, rfl, Or.inl ⟨same, rfl⟩⟩
  · rw [if_neg same]
    exact ⟨rfl, rfl, Or.inr ⟨same, rfl⟩⟩

theorem modified_back {k i : Nat} {f : ModuleActor → ModuleActor} {b : ModuleActor}
    (sameName : ∀ a, (f a).name = a.name) (sameAsked : ∀ a, (f a).asked = a.asked)
    (dies : ∀ a, (f a).alive = true → a.alive = true)
    (here : (actors.modify k f)[i]? = some b) :
    ∃ a, actors[i]? = some a ∧ b.name = a.name ∧ b.asked = a.asked ∧
      (b.alive = true → a.alive = true) := by
  obtain ⟨a, found, rfl⟩ := entry_modify.mp here
  refine ⟨a, found, ?_⟩
  split
  · exact ⟨sameName a, sameAsked a, dies a⟩
  · exact ⟨rfl, rfl, id⟩

theorem listed_modify (listed : Listed modules actors) {k : Nat}
    {f : ModuleActor → ModuleActor} (sameName : ∀ a, (f a).name = a.name)
    (sameAsked : ∀ a, (f a).asked = a.asked)
    (dies : ∀ a, (f a).alive = true → a.alive = true) : Listed modules (actors.modify k f) := by
  intro i b here alive asked
  obtain ⟨a, found, named, kept, lived⟩ := modified_back sameName sameAsked dies here
  rw [named]
  exact listed i a found (lived alive) (kept ▸ asked)

theorem listed_forget (listed : Listed modules actors) {name : String}
    (vacant : ∀ (id : Nat) a, actors[id]? = some a → a.alive = true → a.asked = none →
      a.name ≠ name) : Listed (modules.erase name) actors := by
  intro id a found alive asked
  obtain ⟨loaded, held, same⟩ := listed id a found alive asked
  exact ⟨loaded, lookup_erase_some.mpr ⟨vacant id a found alive asked, held⟩, same⟩

theorem listed_stop (listed : Listed modules actors) {name : String} {old : VersionedModule}
    (found : modules.lookup name = some old) (reason : StopReason) :
    Listed (modules.erase name)
      (actors.modify old.actor fun a => { a with asked := some reason }) := by
  intro id b here alive asked
  obtain ⟨a, live, named, lived, ⟨_, stopped⟩ | ⟨different, kept⟩⟩ := asked_back here
  · exact absurd (asked.symm.trans stopped) (by simp)
  · obtain ⟨loaded, held, same⟩ := listed id a live (lived ▸ alive) (kept ▸ asked)
    refine ⟨loaded, lookup_erase_some.mpr ⟨?_, named ▸ held⟩, same⟩
    intro taken
    rw [← named, taken] at held
    obtain rfl := Option.some.inj (found.symm.trans held)
    exact different same

theorem listed_spawn (listed : Listed modules actors) {x : ModuleActor} (version : Version)
    (component : Nat)
    (vacant : ∀ (id : Nat) a, actors[id]? = some a → a.alive = true → a.asked = none →
      a.name ≠ x.name) :
    Listed (modules.insert x.name ⟨version, actors.length, component⟩) (actors ++ [x]) := by
  intro id a here alive asked
  rcases entry_snoc.mp here with old | ⟨rfl, rfl⟩
  · obtain ⟨loaded, held, same⟩ := listed id a old alive asked
    have different := vacant id a old alive asked
    exact ⟨loaded, lookup_insert_some.mpr (Or.inr ⟨different, held⟩), same⟩
  · exact ⟨_, lookup_insert_some.mpr (Or.inl ⟨rfl, rfl⟩), rfl⟩

theorem vacant_actors {s : Supervisor} (listed : Listed s.modules s.actors) {name : String}
    (vacant : Vacant s name) (id : Nat) (a : ModuleActor) (found : s.actors[id]? = some a)
    (alive : a.alive = true) (asked : a.asked = none) : a.name ≠ name := by
  rintro rfl
  obtain ⟨loaded, held, rfl⟩ := listed id a found alive asked
  have dead := vacant loaded held
  rw [isAlive, found, Option.any_some, alive] at dead
  exact Bool.false_ne_true dead.symm

theorem vacant_forget (s : Supervisor) (name : String) : Vacant (s.forget name) name := by
  intro loaded found
  exact absurd rfl (lookup_erase_some.mp found).1

end listed

section orderly
variable {modules : KeyedMap String VersionedModule}
  {pending : KeyedMap Nat (String × PendingModule)}
  {backoff : KeyedMap String ModuleBackoffState} {actors : List ModuleActor}

theorem orderly_modify (ord : Orderly modules pending backoff actors) {k : Nat}
    {f : ModuleActor → ModuleActor} (sameName : ∀ a, (f a).name = a.name)
    (sameAsked : ∀ a, (f a).asked = a.asked)
    (dies : ∀ a, (f a).alive = true → a.alive = true) :
    Orderly modules pending backoff (actors.modify k f) := by
  constructor
  · exact listed_modify ord.current sameName sameAsked dies
  · intro i b here alive asked
    obtain ⟨a, found, named, kept, lived⟩ := modified_back sameName sameAsked dies here
    rw [named]
    exact ord.replaced i a found (lived alive) (kept ▸ asked)
  · exact ord.waiting
  · exact ord.alone
  · intro i name p queued j b here named
    obtain ⟨a, found, same, _, _⟩ := modified_back sameName sameAsked dies here
    exact ord.latest i name p queued j a found (same ▸ named)

theorem orderly_forget (ord : Orderly modules pending backoff actors) {name : String}
    (vacant : ∀ (id : Nat) a, actors[id]? = some a → a.alive = true → a.asked = none →
      a.name ≠ name) : Orderly (modules.erase name) pending (backoff.erase name) actors := by
  constructor
  · exact listed_forget ord.current vacant
  · exact ord.replaced
  · intro id other p queued
    obtain ⟨none, quiet⟩ := ord.waiting id other p queued
    exact ⟨lookup_erase_none.mpr (Or.inr none), lookup_erase_none.mpr (Or.inr quiet)⟩
  · exact ord.alone
  · exact ord.latest

theorem orderly_stop (ord : Orderly modules pending backoff actors) {name : String}
    {old : VersionedModule} (found : modules.lookup name = some old) {reason : StopReason}
    (other : reason ≠ .replaced) :
    Orderly (modules.erase name) pending (backoff.erase name)
      (actors.modify old.actor fun a => { a with asked := some reason }) := by
  constructor
  · exact listed_stop ord.current found reason
  · intro id b here alive asked
    obtain ⟨a, live, named, lived, ⟨_, stopped⟩ | ⟨_, kept⟩⟩ := asked_back here
    · exact absurd (Option.some.inj (stopped.symm.trans asked)) other
    · rw [named]
      exact ord.replaced id a live (lived ▸ alive) (kept ▸ asked)
  · intro id waiting p queued
    obtain ⟨none, quiet⟩ := ord.waiting id waiting p queued
    exact ⟨lookup_erase_none.mpr (Or.inr none), lookup_erase_none.mpr (Or.inr quiet)⟩
  · exact ord.alone
  · intro id waiting p queued j b here named
    obtain ⟨a, live, same, _⟩ := asked_back here
    exact ord.latest id waiting p queued j a live (same ▸ named)

theorem orderly_swap {pendingDeletions : KeyedMap Nat String}
    (rec : Recorded modules pending pendingDeletions actors)
    (ord : Orderly modules pending backoff actors) {name : String} {old : VersionedModule}
    (found : modules.lookup name = some old)
    (none : ∀ id p, pending.lookup id ≠ some (name, p)) (p : PendingModule) :
    Orderly (modules.erase name) (pending.insert old.actor (name, p)) (backoff.erase name)
      (actors.modify old.actor fun a => { a with asked := some .replaced }) := by
  constructor
  · exact listed_stop ord.current found .replaced
  · intro id b here alive asked
    obtain ⟨a, live, named, lived, ⟨rfl, _⟩ | ⟨different, kept⟩⟩ := asked_back here
    · obtain ⟨first, held, same, _⟩ := rec.loaded name old found
      obtain rfl := Option.some.inj (live.symm.trans held)
      exact ⟨p, lookup_insert_some.mpr (Or.inl ⟨rfl, by rw [named, same]⟩)⟩
    · obtain ⟨q, queued⟩ := ord.replaced id a live (lived ▸ alive) (kept ▸ asked)
      exact ⟨q, lookup_insert_some.mpr (Or.inr ⟨Ne.symm different, named ▸ queued⟩)⟩
  · intro id waiting q queued
    rcases lookup_insert_some.mp queued with ⟨_, same⟩ | ⟨_, kept⟩
    · obtain ⟨rfl, rfl⟩ := Prod.mk.inj same
      exact ⟨lookup_erase_none.mpr (Or.inl rfl), lookup_erase_none.mpr (Or.inl rfl)⟩
    · obtain ⟨free, quiet⟩ := ord.waiting id waiting q kept
      exact ⟨lookup_erase_none.mpr (Or.inr free), lookup_erase_none.mpr (Or.inr quiet)⟩
  · intro i j waiting q r left right
    rcases lookup_insert_some.mp left with ⟨rfl, same⟩ | ⟨_, keptL⟩
    · obtain ⟨rfl, rfl⟩ := Prod.mk.inj same
      rcases lookup_insert_some.mp right with ⟨rfl, _⟩ | ⟨_, keptR⟩
      · rfl
      · exact absurd keptR (none j r)
    · rcases lookup_insert_some.mp right with ⟨rfl, same⟩ | ⟨_, keptR⟩
      · obtain ⟨rfl, rfl⟩ := Prod.mk.inj same
        exact absurd keptL (none i q)
      · exact ord.alone i j waiting q r keptL keptR
  · intro id waiting q queued j b here named
    obtain ⟨a, live, same, _⟩ := asked_back here
    rcases lookup_insert_some.mp queued with ⟨rfl, eq⟩ | ⟨_, kept⟩
    · obtain ⟨rfl, rfl⟩ := Prod.mk.inj eq
      exact rec.newest name old found j a live (same ▸ named)
    · exact ord.latest id waiting q kept j a live (same ▸ named)

theorem orderly_spawn (ord : Orderly modules pending backoff actors) {x : ModuleActor}
    (unasked : x.asked = none) (version : Version) (component : Nat)
    (vacant : ∀ (id : Nat) a, actors[id]? = some a → a.alive = true → a.asked = none →
      a.name ≠ x.name)
    (none : ∀ id p, pending.lookup id ≠ some (x.name, p)) :
    Orderly (modules.insert x.name ⟨version, actors.length, component⟩) pending backoff
      (actors ++ [x]) := by
  constructor
  · exact listed_spawn ord.current version component vacant
  · intro id a here alive asked
    rcases entry_snoc.mp here with old | ⟨_, rfl⟩
    · exact ord.replaced id a old alive asked
    · exact absurd (unasked.symm.trans asked) (by simp)
  · intro id name p queued
    obtain ⟨free, quiet⟩ := ord.waiting id name p queued
    refine ⟨?_, quiet⟩
    have different : name ≠ x.name := by
      rintro rfl
      exact none id p queued
    rw [AList.lookup_insert_ne different, free]
  · exact ord.alone
  · intro id name p queued j b here named
    rcases entry_snoc.mp here with old | ⟨_, rfl⟩
    · exact ord.latest id name p queued j b old named
    · exact absurd (named ▸ queued) (none id p)

theorem orderly_taken (ord : Orderly modules pending backoff actors) {id : Nat}
    {a : ModuleActor} (found : actors[id]? = some a) (dead : a.alive = false) :
    Orderly modules (pending.erase id) backoff actors := by
  constructor
  · exact ord.current
  · intro i b here alive asked
    obtain ⟨p, queued⟩ := ord.replaced i b here alive asked
    refine ⟨p, lookup_erase_some.mpr ⟨?_, queued⟩⟩
    rintro rfl
    obtain rfl := Option.some.inj (found.symm.trans here)
    exact Bool.false_ne_true (dead.symm.trans alive)
  · intro i name p queued
    exact ord.waiting i name p (lookup_erase_some.mp queued).2
  · intro i j name p q left right
    exact ord.alone i j name p q (lookup_erase_some.mp left).2 (lookup_erase_some.mp right).2
  · intro i name p queued
    exact ord.latest i name p (lookup_erase_some.mp queued).2

theorem orderly_backoff (ord : Orderly modules pending backoff actors) {name : String}
    {loaded : VersionedModule} (found : modules.lookup name = some loaded)
    (state : ModuleBackoffState) :
    Orderly modules pending (backoff.insert name state) actors := by
  constructor
  · exact ord.current
  · exact ord.replaced
  · intro id waiting p queued
    obtain ⟨free, quiet⟩ := ord.waiting id waiting p queued
    refine ⟨free, ?_⟩
    have different : waiting ≠ name := by
      rintro rfl
      exact absurd (free.symm.trans found) (by simp)
    rw [AList.lookup_insert_ne different, quiet]
  · exact ord.alone
  · exact ord.latest

end orderly

section steps
variable {cfg : Config} {s t : Supervisor}

theorem orderly_spawnModule (ord : InOrder s) {name : String} (p : PendingModule)
    (vacant : Vacant s name) (none : ∀ id q, s.pending.lookup id ≠ some (name, q)) :
    InOrder (s.spawnModule name p) :=
  orderly_spawn (x := s.newActor name p) ord rfl p.version p.component
    (vacant_actors ord.current vacant) none

theorem orderly_vacate (ord : InOrder s) {name : String} (vacant : Vacant s name) :
    InOrder (s.forget name) := orderly_forget ord (vacant_actors ord.current vacant)

theorem loadsAlone_iff {a : Action} {base : Supervisor} {name : String} {p : PendingModule}
    (loads : Loads s a base name p) :
    loadsAlone s a = true ↔ ∀ id q, s.pending.lookup id ≠ some (name, q) := by
  cases loads with
  | compiled index task found =>
    rw [← swapPending_false]
    simp [loadsAlone, found]
  | reset =>
    rw [← swapPending_false]
    simp [loadsAlone]

theorem orderly_step {a : Action} (inv : Inv s) (met : loadsAlone s a = true)
    (taken : step cfg s a = some t) : InOrder t := by
  have ord := inv.orderly
  cases moved_of_step taken with
  | foreign => exact ord
  | alreadyLoaded => exact ord
  | compiles => exact ord
  | unloaded name loaded found => exact orderly_stop ord found (by simp)
  | notLoaded name none => exact orderly_vacate ord (vacant_of_none none)
  | deletionQueued name loaded found => exact orderly_stop ord found (by simp)
  | deletedNow name vacant => exact orderly_vacate ord vacant
  | swapQueued _ base name p old loads found =>
    have none := (loadsAlone_iff loads).mp met
    cases loads with
    | compiled => exact orderly_swap inv.registered ord found none _
    | reset => exact orderly_swap inv.registered ord found none _
  | loaded _ base name p loads vacant =>
    have none := (loadsAlone_iff loads).mp met
    have cleared := orderly_vacate ord vacant
    cases loads with
    | compiled => exact orderly_spawnModule cleared _ (vacant_forget s _) none
    | reset => exact orderly_spawnModule cleared _ (vacant_forget s _) none
  | compileFailed => exact ord
  | restartDropped => exact ord
  | restarted index message found retried vacant =>
    apply orderly_spawnModule ord _ vacant
    intro id p queued
    exact retried (ord.waiting id message.name p queued).2
  | swapped index id name p noticed queued =>
    obtain ⟨a, found, dead⟩ := inv.reported id (List.mem_of_getElem? noticed)
    have rest : InOrder { s with
        notices := s.notices.eraseIdx index
        pending := s.pending.erase id } := orderly_taken ord found dead
    apply orderly_spawnModule rest _ (vacant_of_none (ord.waiting id name p queued).1)
    intro other q held
    obtain ⟨different, kept⟩ := lookup_erase_some.mp held
    exact different (ord.alone other id name q p kept queued)
  | removalSkipped => exact ord
  | removed => exact ord
  | failed index id name loaded noticed unqueued found =>
    unfold handleFailure
    split
    · exact orderly_backoff ord found _
    · exact ord
  | reaped => exact ord
  | started id a =>
    unfold startActor
    dsimp only
    split
    · exact orderly_modify ord (fun _ => rfl) (fun _ => rfl) (fun _ alive => alive)
    · exact orderly_modify ord (fun _ => rfl) (fun _ => rfl) (fun _ alive => alive)
  | wrote => exact ord
  | died id a =>
    exact orderly_modify ord (fun _ => rfl) (fun _ => rfl) (fun _ alive => nomatch alive)

theorem inv_step {a : Action} (inv : Inv s) (met : loadsAlone s a = true)
    (taken : step cfg s a = some t) : Inv t where
  registered := registered_step inv.registered taken
  reported := reported_step inv.reported taken
  orderly := orderly_step inv met taken

end steps

theorem orderly_idle : InOrder idle := by
  constructor
  · exact fun id a found => absurd found (by simp [idle])
  · exact fun id a found => absurd found (by simp [idle])
  · exact fun id name p queued => nomatch queued
  · exact fun i j name p q queued => nomatch queued
  · exact fun id name p queued => nomatch queued

theorem orderly_onStart (active : KeyedMap String Version) :
    InOrder (onStart active) ∧ (onStart active).pending = ∅ := by
  apply onStart_induction (P := fun s => InOrder s ∧ s.pending = ∅)
  · exact ⟨orderly_idle, rfl⟩
  · intro s name version held free
    obtain ⟨ord, empty⟩ := held
    have cleared := orderly_vacate ord (vacant_of_none free)
    refine ⟨orderly_spawnModule cleared _ (vacant_forget s name) ?_, empty⟩
    intro id p queued
    have none : s.pending.lookup id = some (name, p) := queued
    rw [empty] at none
    exact nomatch none

theorem inv_onStart (active : KeyedMap String Version) : Inv (onStart active) where
  registered := registered_onStart active
  reported := reported_onStart active
  orderly := (orderly_onStart active).1

/-- Every run that handles no compilation and no reset of a name while a swap of the
    name waits keeps one live actor a name, and spawns a replacement after the death of
    what it replaces. -/
theorem single_actor_without_overlap (cfg : Config) (active : KeyedMap String Version)
    (actions : List Action)
    (met : Meets (step cfg) (fun s a => loadsAlone s a = true) (onStart active) actions) :
    Always (step cfg) SingleLive (onStart active) actions :=
  always_of_meets (fun inv met taken => inv_step inv met taken) single_of_inv
    (inv_onStart active) met

section sample

def projectors : Config := ⟨.projector, false⟩

def activation (minor : Nat) : Action :=
  .publish (.activated .projector "ledger" (release 1 minor 0))

def swapWaiting : List Action := [activation 1, .compiled 0, activation 2, .compiled 0]

theorem swap_completes_single :
    (exec (step projectors) (onStart ∅) (swapWaiting ++ [.die 0, .linkDied 0])).map
      (fun final => final.actors.map (·.alive)) = some [false, true] ∧
    Always (step projectors) SingleLive (onStart ∅) (swapWaiting ++ [.die 0, .linkDied 0]) :=
  ⟨by decide +kernel, single_actor_without_overlap projectors ∅ _ (by decide +kernel)⟩

/-- Version 1.3 arrives while 1.2 waits: it is spawned beside the live 1.1, and 1.2 is
    swapped in over it. -/
theorem load_during_swap_runs_two : ∃ final,
    exec (step projectors) (onStart ∅)
      (swapWaiting ++ [activation 3, .compiled 0, .die 0, .linkDied 0]) = some final ∧
        ¬ SingleLive final := by
  have seen : (exec (step projectors) (onStart ∅)
      (swapWaiting ++ [activation 3, .compiled 0, .die 0, .linkDied 0])).map
        (fun final => final.actors.map fun a => (a.name, a.alive, a.asked)) =
          some [("ledger", false, some .replaced), ("ledger", true, none),
            ("ledger", true, none)] := by decide +kernel
  obtain ⟨final, run, fields⟩ := Option.map_eq_some_iff.mp seen
  refine ⟨final, run, ?_⟩
  intro single
  have running : ∀ i, i = 1 ∨ i = 2 → ∃ a, Running final i a ∧ a.name = "ledger" := by
    intro i which
    have here : (final.actors.map fun a => (a.name, a.alive, a.asked))[i]? =
        some ("ledger", true, none) := by
      rw [fields]
      rcases which with rfl | rfl <;> rfl
    rw [List.getElem?_map] at here
    obtain ⟨a, found, same⟩ := Option.map_eq_some_iff.mp here
    simp only [Prod.mk.injEq] at same
    exact ⟨a, ⟨found, same.2.1, same.2.2⟩, same.1⟩
  obtain ⟨a, first, named⟩ := running 1 (Or.inl rfl)
  obtain ⟨b, second, named'⟩ := running 2 (Or.inr rfl)
  exact absurd (single.unique 1 2 a b first second (named.trans named'.symm)) (by decide)

end sample
end UmariSingleActor
