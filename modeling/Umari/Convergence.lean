import Umari.SingleActor

/-!
What runs once nothing is under way any more: for each name the version of its last
activation, or nothing after a deactivation or a deletion. The supervisor gets there
when the result of a compilation is only handled while its activation is still the
last event of the name, or the result of the last one is still to come, and when
nothing of a name happens while a swap of it waits. Everything compiles and no actor
fails; nobody resets a module.
-/
namespace UmariConvergence
open GuardedRuns KeyedMaps NumberedLists PositionedLogs UmariStateDatabases UmariModuleEvents
open UmariModuleSupervisor UmariModuleSupervisor.Supervisor UmariSingleActor

/-- No compilation, notice or stop is pending. -/
def Quiescent (s : Supervisor) : Prop :=
  s.compiling = [] ∧ s.notices = [] ∧
    ∀ (id : Nat) a, s.actors[id]? = some a → a.alive = true → a.asked = none

def Runs (s : Supervisor) (name : String) (version : Version) : Prop :=
  ∃ (id : Nat) (a : ModuleActor), s.actors[id]? = some a ∧ a.alive = true ∧ a.name = name ∧
    a.version = version

def Converged (cfg : Config) (active : KeyedMap String Version) (s : Supervisor) : Prop :=
  Quiescent s → ∀ name version, Runs s name version ↔
    intended cfg.moduleType name (active.lookup name) s.published = some version

/-- Compilations succeed, an actor dies only when it was asked to stop, and there are
    no resets, nor restarts, which follow a failure. -/
def undisturbed (s : Supervisor) : Action → Bool
  | .compileFailed _ => false
  | .reset _ _ _ => false
  | .restart _ => false
  | .die id => (s.actors[id]?).any fun a => a.asked.isSome
  | _ => true

def stillLast (cfg : Config) (s : Supervisor) (task : ModuleCompiled) : Bool :=
  decide (task.component = lastNumber cfg.moduleType task.name s.published)

/-- A result is handled while it is that of the last event of its name, or while that
    of the last event is still to come; and no event that unloads a name and no result
    for it is handled while a swap of it waits. -/
def settles (cfg : Config) (s : Supervisor) : Action → Bool
  | .publish (.deactivated moduleType name) =>
    decide (moduleType ≠ cfg.moduleType) || !swapPending s name
  | .publish (.deleted moduleType name) =>
    decide (moduleType ≠ cfg.moduleType) || !swapPending s name
  | .compiled index =>
    match s.compiling[index]? with
    | none => true
    | some task => !swapPending s task.name && (stillLast cfg s task ||
        (s.compiling.eraseIdx index).any fun other =>
          decide (other.name = task.name) && stillLast cfg s other)
  | _ => true

def Outstanding (cfg : Config) (compiling : List ModuleCompiled) (published : List ModuleEvent)
    (name : String) : Prop :=
  ∃ task ∈ compiling, task.name = name ∧
    task.component = lastNumber cfg.moduleType name published

def Holds (modules : KeyedMap String VersionedModule)
    (pending : KeyedMap Nat (String × PendingModule)) (name : String) : Option Version → Prop
  | some version =>
    (∃ loaded, modules.lookup name = some loaded ∧ loaded.version = version) ∨
      ∃ id p, pending.lookup id = some (name, p) ∧ p.version = version
  | none => modules.lookup name = none ∧ ∀ id p, pending.lookup id ≠ some (name, p)

def Live (modules : KeyedMap String VersionedModule) (actors : List ModuleActor) : Prop :=
  ∀ name loaded, modules.lookup name = some loaded →
    ∃ a, actors[loaded.actor]? = some a ∧ a.alive = true ∧ a.version = loaded.version

def Arriving (pending : KeyedMap Nat (String × PendingModule)) (notices : List Nat)
    (actors : List ModuleActor) : Prop :=
  ∀ id entry, pending.lookup id = some entry →
    (∃ a, actors[id]? = some a ∧ a.alive = true) ∨ id ∈ notices

structure Tasks (cfg : Config) (active : KeyedMap String Version)
    (compiling : List ModuleCompiled) (published : List ModuleEvent) : Prop where
  numbered : ∀ task ∈ compiling, task.component ≤ published.length
  last : ∀ task ∈ compiling, task.component = lastNumber cfg.moduleType task.name published →
    intended cfg.moduleType task.name (active.lookup task.name) published = some task.version

def Ends (cfg : Config) (active : KeyedMap String Version) (s : Supervisor) (name : String) :
    Prop :=
  Outstanding cfg s.compiling s.published name ∨
    Holds s.modules s.pending name
      (intended cfg.moduleType name (active.lookup name) s.published)

structure Settling (cfg : Config) (active : KeyedMap String Version) (s : Supervisor) : Prop where
  single : Inv s
  live : Live s.modules s.actors
  arriving : Arriving s.pending s.notices s.actors
  tasks : Tasks cfg active s.compiling s.published
  ends : ∀ name, Ends cfg active s name

variable {cfg : Config} {active : KeyedMap String Version} {s t : Supervisor}

theorem converged_of_settling (inv : Settling cfg active s) : Converged cfg active s := by
  rintro ⟨compiled, reaped, unasked⟩ name version
  have noSwap : ∀ id other p, s.pending.lookup id ≠ some (other, p) := by
    intro id other p queued
    rcases inv.arriving id _ queued with ⟨a, found, alive⟩ | noticed
    · obtain ⟨b, same, _, asked⟩ := inv.single.registered.queued id other p queued
      obtain rfl := Option.some.inj (found.symm.trans same)
      exact absurd ((unasked id a found alive).symm.trans asked) (by simp)
    · rw [reaped] at noticed
      exact List.not_mem_nil noticed
  have held : Holds s.modules s.pending name
      (intended cfg.moduleType name (active.lookup name) s.published) := by
    rcases inv.ends name with ⟨task, member, _⟩ | held
    · rw [compiled] at member
      exact absurd member List.not_mem_nil
    · exact held
  constructor
  · rintro ⟨id, a, found, alive, rfl, rfl⟩
    obtain ⟨loaded, recorded, rfl⟩ :=
      inv.single.orderly.current id a found alive (unasked id a found alive)
    obtain ⟨b, same, _, running⟩ := inv.live a.name loaded recorded
    obtain rfl := Option.some.inj (found.symm.trans same)
    cases asked : intended cfg.moduleType a.name (active.lookup a.name) s.published with
    | none =>
      rw [asked] at held
      exact absurd (held.1.symm.trans recorded) (by simp)
    | some version =>
      rw [asked] at held
      rcases held with ⟨other, recorded', rfl⟩ | ⟨id, p, queued, _⟩
      · obtain rfl := Option.some.inj (recorded.symm.trans recorded')
        rw [running]
      · exact absurd queued (noSwap id a.name p)
  · intro asked
    rw [asked] at held
    rcases held with ⟨loaded, recorded, rfl⟩ | ⟨id, p, queued, _⟩
    · obtain ⟨a, found, alive, running⟩ := inv.live name loaded recorded
      obtain ⟨b, same, named, _⟩ := inv.single.registered.loaded name loaded recorded
      obtain rfl := Option.some.inj (found.symm.trans same)
      exact ⟨loaded.actor, a, found, alive, named, running⟩
    · exact absurd queued (noSwap id name p)

section live
variable {modules : KeyedMap String VersionedModule} {actors : List ModuleActor}

theorem live_modify (live : Live modules actors) {k : Nat} {f : ModuleActor → ModuleActor}
    (lives : ∀ a, (f a).alive = a.alive) (same : ∀ a, (f a).version = a.version) :
    Live modules (actors.modify k f) := by
  intro name loaded found
  obtain ⟨a, held, alive, version⟩ := live name loaded found
  refine ⟨_, entry_modify.mpr ⟨a, held, rfl⟩, ?_⟩
  split
  · exact ⟨(lives a).trans alive, (same a).trans version⟩
  · exact ⟨alive, version⟩

theorem live_erase (live : Live modules actors) (name : String) :
    Live (modules.erase name) actors :=
  fun other loaded found => live other loaded (lookup_erase_some.mp found).2

theorem live_snoc (live : Live modules actors) (name : String) {x : ModuleActor}
    (alive : x.alive = true) (component : Nat) :
    Live (modules.insert name ⟨x.version, actors.length, component⟩) (actors ++ [x]) := by
  intro other loaded found
  rcases lookup_insert_some.mp found with ⟨rfl, rfl⟩ | ⟨_, old⟩
  · exact ⟨x, entry_snoc.mpr (Or.inr ⟨rfl, rfl⟩), alive, rfl⟩
  · obtain ⟨a, held, both⟩ := live other loaded old
    exact ⟨a, entry_snoc.mpr (Or.inl held), both⟩

theorem live_spawnModule (live : Live s.modules s.actors) (name : String) (p : PendingModule) :
    Live (s.spawnModule name p).modules (s.spawnModule name p).actors :=
  live_snoc (x := s.newActor name p) live name rfl p.component

end live

theorem live_step {a : Action} (inv : Settling cfg active s) (calm : undisturbed s a = true)
    (taken : step cfg s a = some t) : Live t.modules t.actors := by
  have live := inv.live
  cases moved_of_step taken with
  | foreign => exact live
  | alreadyLoaded => exact live
  | compiles => exact live
  | unloaded name =>
    exact live_modify (live_erase live name) (fun _ => rfl) (fun _ => rfl)
  | notLoaded name => exact live_erase live name
  | deletionQueued name =>
    exact live_modify (live_erase live name) (fun _ => rfl) (fun _ => rfl)
  | deletedNow name => exact live_erase live name
  | swapQueued _ base name p old loads =>
    cases loads with
    | compiled => exact live_modify (live_erase live _) (fun _ => rfl) (fun _ => rfl)
    | reset => exact absurd calm Bool.false_ne_true
  | loaded _ base name p loads =>
    cases loads with
    | compiled => exact live_spawnModule (live_erase live _) _ _
    | reset => exact absurd calm Bool.false_ne_true
  | compileFailed => exact absurd calm Bool.false_ne_true
  | restartDropped => exact absurd calm Bool.false_ne_true
  | restarted => exact absurd calm Bool.false_ne_true
  | swapped index id name p => exact live_spawnModule live name p
  | removalSkipped => exact live
  | removed => exact live
  | failed =>
    unfold handleFailure
    split
    · exact live
    · exact live
  | reaped => exact live
  | started id a =>
    unfold startActor
    dsimp only
    split
    · exact live_modify live (fun _ => rfl) (fun _ => rfl)
    · exact live_modify live (fun _ => rfl) (fun _ => rfl)
  | wrote => exact live
  | died id a found =>
    intro name loaded recorded
    obtain ⟨b, held, both⟩ := live name loaded recorded
    obtain ⟨c, same, _, unasked⟩ := inv.single.registered.loaded name loaded recorded
    obtain rfl := Option.some.inj (held.symm.trans same)
    refine ⟨b, entry_modify.mpr ⟨b, held, ?_⟩, both⟩
    -- the actor that died was asked to stop, the recorded one was not
    have different : id ≠ loaded.actor := by
      rintro rfl
      rw [undisturbed, held, Option.any_some, unasked] at calm
      exact absurd calm Bool.false_ne_true
    rw [if_neg different]

theorem mem_eraseIdx_of_ne {α : Type} {xs : List α} {x y : α} {i : Nat} (member : x ∈ xs)
    (gone : xs[i]? = some y) (different : x ≠ y) : x ∈ xs.eraseIdx i := by
  obtain ⟨j, held⟩ := List.mem_iff_getElem?.mp member
  apply List.mem_eraseIdx_iff_getElem?.mpr
  refine ⟨j, ?_, held⟩
  rintro rfl
  exact different (Option.some.inj (held.symm.trans gone))

section arriving
variable {pending : KeyedMap Nat (String × PendingModule)} {notices : List Nat}
  {actors : List ModuleActor}

theorem arriving_modify (arriving : Arriving pending notices actors) {k : Nat}
    {f : ModuleActor → ModuleActor} (lives : ∀ a, (f a).alive = a.alive) :
    Arriving pending notices (actors.modify k f) := by
  intro id entry queued
  rcases arriving id entry queued with ⟨a, found, alive⟩ | noticed
  · apply Or.inl
    refine ⟨_, entry_modify.mpr ⟨a, found, rfl⟩, ?_⟩
    split
    · exact (lives a).trans alive
    · exact alive
  · exact Or.inr noticed

theorem arriving_snoc (arriving : Arriving pending notices actors) (x : ModuleActor) :
    Arriving pending notices (actors ++ [x]) := by
  intro id entry queued
  rcases arriving id entry queued with ⟨a, found, alive⟩ | noticed
  · exact Or.inl ⟨a, entry_snoc.mpr (Or.inl found), alive⟩
  · exact Or.inr noticed

theorem arriving_eraseIdx (arriving : Arriving pending notices actors) {index id : Nat}
    (noticed : notices[index]? = some id) (unqueued : pending.lookup id = none) :
    Arriving pending (notices.eraseIdx index) actors := by
  intro other entry queued
  rcases arriving other entry queued with alive | waiting
  · exact Or.inl alive
  · apply Or.inr
    apply mem_eraseIdx_of_ne waiting noticed
    rintro rfl
    exact absurd (unqueued.symm.trans queued) (by simp)

theorem arriving_erase (arriving : Arriving pending notices actors) (id : Nat) :
    Arriving (pending.erase id) notices actors :=
  fun other entry queued => arriving other entry (lookup_erase_some.mp queued).2

theorem arriving_insert (arriving : Arriving pending notices actors) {id : Nat}
    {a : ModuleActor} (found : actors[id]? = some a) (alive : a.alive = true)
    (entry : String × PendingModule) : Arriving (pending.insert id entry) notices actors := by
  intro other held queued
  rcases lookup_insert_some.mp queued with ⟨rfl, _⟩ | ⟨_, old⟩
  · exact Or.inl ⟨a, found, alive⟩
  · exact arriving other held old

end arriving

theorem alive_actor {id : Nat} (alive : s.isAlive id = true) :
    ∃ a, s.actors[id]? = some a ∧ a.alive = true := by
  rw [isAlive, Option.any_eq_true_iff_get] at alive
  obtain ⟨present, lives⟩ := alive
  exact ⟨(s.actors[id]?).get present, (Option.some_get present).symm, lives⟩

theorem arriving_step {a : Action} (inv : Settling cfg active s)
    (taken : step cfg s a = some t) : Arriving t.pending t.notices t.actors := by
  have arriving := inv.arriving
  cases moved_of_step taken with
  | foreign => exact arriving
  | alreadyLoaded => exact arriving
  | compiles => exact arriving
  | unloaded => exact arriving_modify arriving (fun _ => rfl)
  | notLoaded => exact arriving
  | deletionQueued => exact arriving_modify arriving (fun _ => rfl)
  | deletedNow => exact arriving
  | swapQueued _ base name p old loads found alive =>
    obtain ⟨a, held, lives⟩ := alive_actor alive
    cases loads with
    | compiled =>
      exact arriving_modify (arriving_insert arriving held lives _) (fun _ => rfl)
    | reset =>
      exact arriving_modify (arriving_insert arriving held lives _) (fun _ => rfl)
  | loaded _ base name p loads =>
    cases loads with
    | compiled => exact arriving_snoc arriving _
    | reset => exact arriving_snoc arriving _
  | compileFailed => exact arriving
  | restartDropped => exact arriving
  | restarted => exact arriving_snoc arriving _
  | swapped index id name p noticed queued =>
    apply arriving_snoc
    apply arriving_eraseIdx (arriving_erase arriving id) noticed
    exact lookup_erase_none.mpr (Or.inl rfl)
  | removalSkipped index id name noticed unqueued =>
    exact arriving_eraseIdx arriving noticed unqueued
  | removed index id name noticed unqueued => exact arriving_eraseIdx arriving noticed unqueued
  | failed index id name loaded noticed unqueued =>
    unfold handleFailure
    split
    · exact arriving_eraseIdx arriving noticed unqueued
    · exact arriving_eraseIdx arriving noticed unqueued
  | reaped index id noticed unqueued => exact arriving_eraseIdx arriving noticed unqueued
  | started id a =>
    unfold startActor
    dsimp only
    split
    · exact arriving_modify arriving (fun _ => rfl)
    · exact arriving_modify arriving (fun _ => rfl)
  | wrote => exact arriving
  | died id a found =>
    intro other entry queued
    rcases arriving other entry queued with ⟨b, held, alive⟩ | noticed
    · by_cases same : id = other
      · exact Or.inr (List.mem_append_right _ (List.mem_singleton.mpr same.symm))
      · exact Or.inl ⟨b, entry_modify.mpr ⟨b, held, (if_neg same).symm⟩, alive⟩
    · exact Or.inr (List.mem_append_left _ noticed)

section tasks
variable {compiling : List ModuleCompiled} {published : List ModuleEvent}

theorem tasks_note (tasks : Tasks cfg active compiling published) (event : ModuleEvent) :
    Tasks cfg active compiling (published ++ [event]) := by
  constructor
  · intro task member
    have bound := tasks.numbered task member
    rw [List.length_append]
    omega
  · intro task member same
    rw [lastNumber_snoc] at same
    rw [intended_snoc]
    by_cases own : concerns cfg.moduleType task.name event = true
    · rw [if_pos own] at same
      have bound := tasks.numbered task member
      omega
    · rw [if_neg own] at same ⊢
      exact tasks.last task member same

theorem tasks_compile (tasks : Tasks cfg active compiling published) {task : ModuleCompiled}
    (bound : task.component ≤ published.length)
    (last : intended cfg.moduleType task.name (active.lookup task.name) published =
      some task.version) : Tasks cfg active (compiling ++ [task]) published := by
  constructor
  · intro other member
    rcases List.mem_append.mp member with old | new
    · exact tasks.numbered other old
    · obtain rfl := List.mem_singleton.mp new
      exact bound
  · intro other member same
    rcases List.mem_append.mp member with old | new
    · exact tasks.last other old same
    · obtain rfl := List.mem_singleton.mp new
      exact last

theorem tasks_eraseIdx (tasks : Tasks cfg active compiling published) (index : Nat) :
    Tasks cfg active (compiling.eraseIdx index) published where
  numbered := fun task member => tasks.numbered task (List.mem_of_mem_eraseIdx member)
  last := fun task member => tasks.last task (List.mem_of_mem_eraseIdx member)

end tasks

theorem tasks_step {a : Action} (inv : Settling cfg active s) (taken : step cfg s a = some t) :
    Tasks cfg active t.compiling t.published := by
  have tasks := inv.tasks
  cases moved_of_step taken with
  | foreign event => exact tasks_note tasks event
  | alreadyLoaded => exact tasks_note tasks _
  | compiles name version =>
    apply tasks_compile (tasks_note tasks _)
    · exact Nat.le_refl _
    · have own : concerns cfg.moduleType name (.activated cfg.moduleType name version) = true :=
        concerns_iff.mpr ⟨rfl, rfl⟩
      show intended cfg.moduleType name _ (s.published ++ [_]) = some version
      rw [intended_snoc, if_pos own]
      rfl
  | unloaded => exact tasks_note tasks _
  | notLoaded => exact tasks_note tasks _
  | deletionQueued => exact tasks_note tasks _
  | deletedNow => exact tasks_note tasks _
  | swapQueued _ base name p old loads =>
    cases loads with
    | compiled index => exact tasks_eraseIdx tasks index
    | reset => exact tasks
  | loaded _ base name p loads =>
    cases loads with
    | compiled index => exact tasks_eraseIdx tasks index
    | reset => exact tasks
  | compileFailed index => exact tasks_eraseIdx tasks index
  | restartDropped => exact tasks
  | restarted => exact tasks
  | swapped => exact tasks
  | removalSkipped => exact tasks
  | removed => exact tasks
  | failed =>
    unfold handleFailure
    split
    · exact tasks
    · exact tasks
  | reaped => exact tasks
  | started id a =>
    unfold startActor
    dsimp only
    split
    · exact tasks
    · exact tasks
  | wrote => exact tasks
  | died => exact tasks

theorem holds_congr {modules modules' : KeyedMap String VersionedModule}
    {pending pending' : KeyedMap Nat (String × PendingModule)} {name : String}
    {version : Option Version} (recorded : modules'.lookup name = modules.lookup name)
    (queued : ∀ id p, pending'.lookup id = some (name, p) ↔ pending.lookup id = some (name, p))
    (holds : Holds modules pending name version) : Holds modules' pending' name version := by
  cases version with
  | none =>
    obtain ⟨free, quiet⟩ := holds
    exact ⟨recorded.trans free, fun id p held => quiet id p ((queued id p).mp held)⟩
  | some version =>
    rcases holds with ⟨loaded, found, same⟩ | ⟨id, p, held, same⟩
    · exact Or.inl ⟨loaded, recorded.trans found, same⟩
    · exact Or.inr ⟨id, p, (queued id p).mpr held, same⟩

theorem ends_note {event : ModuleEvent} {name : String}
    (other : concerns cfg.moduleType name event = false) (ends : Ends cfg active s name) :
    Ends cfg active (s.note event) name := by
  have skip : ¬ concerns cfg.moduleType name event = true := Bool.eq_false_iff.mp other
  have sameNumber : lastNumber cfg.moduleType name (s.note event).published =
      lastNumber cfg.moduleType name s.published := by
    rw [note, lastNumber_snoc, if_neg skip]
  have sameVersion : intended cfg.moduleType name (active.lookup name) (s.note event).published =
      intended cfg.moduleType name (active.lookup name) s.published := by
    rw [note, intended_snoc, if_neg skip]
  unfold Ends Outstanding
  rw [sameNumber, sameVersion]
  exact ends

theorem ends_unload (event : ModuleEvent) (own : event.moduleType = cfg.moduleType)
    (unloads : event.version = none) (quiet : swapPending s event.name = false)
    (sameModules : t.modules = s.modules.erase event.name) (samePending : t.pending = s.pending)
    (sameTasks : t.compiling = s.compiling) (noted : t.published = s.published ++ [event])
    {name : String} (ends : Ends cfg active s name) : Ends cfg active t name := by
  by_cases same : name = event.name
  · subst same
    apply Or.inr
    rw [sameModules, samePending, noted, intended_snoc, if_pos (concerns_iff.mpr ⟨own, rfl⟩),
      unloads]
    exact ⟨lookup_erase_none.mpr (Or.inl rfl), swapPending_false.mp quiet⟩
  · have kept := ends_note (not_concerns (Ne.symm same)) ends
    unfold Ends at kept ⊢
    rw [sameModules, samePending, sameTasks, noted]
    rcases kept with outstanding | holds
    · exact Or.inl outstanding
    · exact Or.inr (holds_congr (AList.lookup_erase_ne same) (fun _ _ => Iff.rfl) holds)

theorem ends_load {index : Nat} {task : ModuleCompiled}
    (found : s.compiling[index]? = some task)
    (timely : stillLast cfg s task = true ∨ Outstanding cfg (s.compiling.eraseIdx index)
      s.published task.name)
    (tasks : Tasks cfg active s.compiling s.published)
    (sameTasks : t.compiling = s.compiling.eraseIdx index)
    (samePublished : t.published = s.published)
    (loads : Holds t.modules t.pending task.name (some task.version))
    (others : ∀ name, name ≠ task.name → t.modules.lookup name = s.modules.lookup name ∧
      ∀ id p, t.pending.lookup id = some (name, p) ↔ s.pending.lookup id = some (name, p))
    {name : String} (ends : Ends cfg active s name) : Ends cfg active t name := by
  unfold Ends
  rw [sameTasks, samePublished]
  by_cases same : name = task.name
  · subst same
    rcases timely with last | outstanding
    · apply Or.inr
      have member := List.mem_of_getElem? found
      rw [tasks.last task member (of_decide_eq_true last)]
      exact loads
    · exact Or.inl outstanding
  · obtain ⟨recorded, queued⟩ := others name same
    rcases ends with ⟨waiting, member, named, last⟩ | holds
    · apply Or.inl
      refine ⟨waiting, mem_eraseIdx_of_ne member found ?_, named, last⟩
      rintro rfl
      exact same named.symm
    · exact Or.inr (holds_congr recorded queued holds)

theorem settles_compiled {index : Nat} {task : ModuleCompiled}
    (found : s.compiling[index]? = some task) (met : settles cfg s (.compiled index) = true) :
    (∀ id p, s.pending.lookup id ≠ some (task.name, p)) ∧
      (stillLast cfg s task = true ∨
        Outstanding cfg (s.compiling.eraseIdx index) s.published task.name) := by
  simp only [settles, found, Bool.and_eq_true, Bool.not_eq_true', Bool.or_eq_true,
    List.any_eq_true, decide_eq_true_eq] at met
  obtain ⟨quiet, timely⟩ := met
  refine ⟨swapPending_false.mp quiet, ?_⟩
  rcases timely with last | ⟨other, member, named, last⟩
  · exact Or.inl last
  · refine Or.inr ⟨other, member, named, ?_⟩
    rw [← named]
    exact of_decide_eq_true last

theorem settles_unload {event : ModuleEvent} (own : event.moduleType = cfg.moduleType)
    (unloads : event.version = none) (met : settles cfg s (.publish event) = true) :
    swapPending s event.name = false := by
  cases event with
  | activated moduleType name version => exact nomatch unloads
  | deactivated moduleType name =>
    obtain rfl : moduleType = cfg.moduleType := own
    show swapPending s name = false
    simpa [settles] using met
  | deleted moduleType name =>
    obtain rfl : moduleType = cfg.moduleType := own
    show swapPending s name = false
    simpa [settles] using met

theorem holds_swapped (ord : InOrder s) {id : Nat} {swapped name : String} {p : PendingModule}
    (queued : s.pending.lookup id = some (swapped, p)) {version : Option Version}
    (holds : Holds s.modules s.pending name version) :
    Holds (s.modules.insert swapped ⟨p.version, s.actors.length, p.component⟩)
      (s.pending.erase id) name version := by
  by_cases here : name = swapped
  · subst here
    cases version with
    | none => exact absurd queued (holds.2 id p)
    | some version =>
      rcases holds with ⟨loaded, found, _⟩ | ⟨other, q, waits, rfl⟩
      · exact absurd ((ord.waiting id name p queued).1.symm.trans found) (by simp)
      · obtain rfl := ord.alone other id name q p waits queued
        obtain ⟨_, rfl⟩ := Prod.mk.inj (Option.some.inj (waits.symm.trans queued))
        exact Or.inl ⟨_, lookup_insert_some.mpr (Or.inl ⟨rfl, rfl⟩), rfl⟩
  · apply holds_congr (AList.lookup_insert_ne here) _ holds
    intro other q
    constructor
    · exact fun waits => (lookup_erase_some.mp waits).2
    · intro waits
      apply lookup_erase_some.mpr
      refine ⟨?_, waits⟩
      rintro rfl
      exact here (Prod.mk.inj (Option.some.inj (waits.symm.trans queued))).1

theorem ends_alreadyLoaded {loaded : String} {version : Version} {current : VersionedModule}
    (found : s.modules.lookup loaded = some current) (same : current.version = version)
    {name : String} (ends : Ends cfg active s name) :
    Ends cfg active (s.note (.activated cfg.moduleType loaded version)) name := by
  by_cases here : name = loaded
  · subst here
    apply Or.inr
    rw [note, intended_snoc, if_pos (concerns_activated _ _ _)]
    exact Or.inl ⟨current, found, same⟩
  · exact ends_note (not_concerns (Ne.symm here)) ends

theorem ends_compiles {loaded : String} {version : Version} {name : String}
    (ends : Ends cfg active s name) :
    Ends cfg active
      ((s.note (.activated cfg.moduleType loaded version)).compile loaded version) name := by
  by_cases here : name = loaded
  · subst here
    apply Or.inl
    refine ⟨_, List.mem_append_right _ List.mem_cons_self, rfl, ?_⟩
    show _ = lastNumber cfg.moduleType name (s.published ++ [_])
    rw [lastNumber_snoc, if_pos (concerns_activated _ _ _)]
    exact List.length_append
  · have other : concerns cfg.moduleType name (.activated cfg.moduleType loaded version) =
        false := not_concerns (Ne.symm here)
    rcases ends_note other ends with ⟨task, member, last⟩ | holds
    · exact Or.inl ⟨task, List.mem_append_left _ member, last⟩
    · exact Or.inr holds

theorem queued_other {pending : KeyedMap Nat (String × PendingModule)} {actor : Nat}
    (unqueued : ∀ entry, pending.lookup actor ≠ some entry) {name other : String}
    (different : other ≠ name) (p q : PendingModule) (id : Nat) :
    (pending.insert actor (name, p)).lookup id = some (other, q) ↔
      pending.lookup id = some (other, q) := by
  constructor
  · intro queued
    rcases lookup_insert_some.mp queued with ⟨_, same⟩ | ⟨_, old⟩
    · exact absurd (Prod.mk.inj same).1.symm different
    · exact old
  · intro queued
    apply lookup_insert_some.mpr
    refine Or.inr ⟨?_, queued⟩
    rintro rfl
    exact unqueued _ queued

theorem ends_step {a : Action} (inv : Settling cfg active s) (calm : undisturbed s a = true)
    (met : settles cfg s a = true) (taken : step cfg s a = some t) (name : String) :
    Ends cfg active t name := by
  have ends := inv.ends name
  cases moved_of_step taken with
  | foreign event other =>
    apply ends_note _ ends
    apply Bool.eq_false_iff.mpr
    intro about
    exact other (concerns_iff.mp about).1
  | alreadyLoaded loaded version current found alive same =>
    exact ends_alreadyLoaded found same ends
  | compiles loaded version => exact ends_compiles ends
  | unloaded loaded =>
    have alone := settles_unload rfl rfl met
    apply ends_unload (.deactivated cfg.moduleType loaded) rfl rfl alone _ _ _ _ ends <;> rfl
  | notLoaded loaded =>
    have alone := settles_unload rfl rfl met
    apply ends_unload (.deactivated cfg.moduleType loaded) rfl rfl alone _ _ _ _ ends <;> rfl
  | deletionQueued loaded =>
    have alone := settles_unload rfl rfl met
    apply ends_unload (.deleted cfg.moduleType loaded) rfl rfl alone _ _ _ _ ends <;> rfl
  | deletedNow loaded =>
    have alone := settles_unload rfl rfl met
    apply ends_unload (.deleted cfg.moduleType loaded) rfl rfl alone _ _ _ _ ends <;> rfl
  | swapQueued _ base loaded p old loads found =>
    cases loads with
    | reset => exact absurd calm Bool.false_ne_true
    | compiled index task pick =>
      obtain ⟨_, timely⟩ := settles_compiled pick met
      apply ends_load pick timely inv.tasks _ _ _ _ ends
      · rfl
      · rfl
      · exact Or.inr ⟨old.actor, _, lookup_insert_some.mpr (Or.inl ⟨rfl, rfl⟩), rfl⟩
      · intro other different
        refine ⟨AList.lookup_erase_ne different, fun id q => ?_⟩
        exact queued_other (recorded_unqueued inv.single.registered found) different _ q id
  | loaded _ base loaded p loads =>
    cases loads with
    | reset => exact absurd calm Bool.false_ne_true
    | compiled index task pick =>
      obtain ⟨_, timely⟩ := settles_compiled pick met
      apply ends_load pick timely inv.tasks _ _ _ _ ends
      · rfl
      · rfl
      · exact Or.inl ⟨_, lookup_insert_some.mpr (Or.inl ⟨rfl, rfl⟩), rfl⟩
      · intro other different
        refine ⟨?_, fun _ _ => Iff.rfl⟩
        show ((s.modules.erase task.name).insert task.name _).lookup other = _
        rw [AList.lookup_insert_ne different, AList.lookup_erase_ne different]
  | compileFailed => exact absurd calm Bool.false_ne_true
  | restartDropped => exact absurd calm Bool.false_ne_true
  | restarted => exact absurd calm Bool.false_ne_true
  | swapped index id loaded p noticed queued =>
    rcases ends with outstanding | holds
    · exact Or.inl outstanding
    · exact Or.inr (holds_swapped inv.single.orderly queued holds)
  | removalSkipped => exact ends
  | removed => exact ends
  | failed =>
    unfold handleFailure
    split
    · exact ends
    · exact ends
  | reaped => exact ends
  | started id a =>
    unfold startActor
    dsimp only
    split
    · exact ends
    · exact ends
  | wrote => exact ends
  | died => exact ends

theorem loadsAlone_of_settles {a : Action} (calm : undisturbed s a = true)
    (met : settles cfg s a = true) : loadsAlone s a = true := by
  cases a with
  | compiled index =>
    cases pick : s.compiling[index]? with
    | none => simp only [loadsAlone, pick]
    | some task =>
      simp only [settles, pick, Bool.and_eq_true] at met
      simp only [loadsAlone, pick]
      exact met.1
  | reset => exact absurd calm Bool.false_ne_true
  | publish => rfl
  | compileFailed => rfl
  | restart => rfl
  | linkDied => rfl
  | start => rfl
  | write => rfl
  | die => rfl

theorem settling_step {a : Action} (inv : Settling cfg active s) (calm : undisturbed s a = true)
    (met : settles cfg s a = true) (taken : step cfg s a = some t) : Settling cfg active t where
  single := inv_step inv.single (loadsAlone_of_settles calm met) taken
  live := live_step inv calm taken
  arriving := arriving_step inv taken
  tasks := tasks_step inv taken
  ends := ends_step inv calm met taken

structure Started (loaded : String → Option Version) (s : Supervisor) : Prop where
  live : Live s.modules s.actors
  unqueued : s.pending = ∅
  compiled : s.compiling = []
  unpublished : s.published = []
  versions : ∀ name, (s.modules.lookup name).map (·.version) = loaded name

theorem started_onStart (active : KeyedMap String Version) :
    Started (fun name => active.lookup name) (onStart active) := by
  apply onStart_loads
  · constructor
    · exact fun name loaded found => nomatch found
    · rfl
    · rfl
    · rfl
    · exact fun name => rfl
  · intro loaded s name version started free
    constructor
    · exact live_spawnModule (live_erase started.live name) name _
    · exact started.unqueued
    · exact started.compiled
    · exact started.unpublished
    · intro other
      show (((s.modules.erase name).insert name _).lookup other).map _ = _
      by_cases same : other = name
      · subst same
        simp
      · rw [AList.lookup_insert_ne same, AList.lookup_erase_ne same,
          Function.update_of_ne same, started.versions]

theorem settling_onStart (cfg : Config) (active : KeyedMap String Version) :
    Settling cfg active (onStart active) := by
  have started := started_onStart active
  constructor
  · exact inv_onStart active
  · exact started.live
  · rw [started.unqueued]
    exact fun id entry queued => nomatch queued
  · rw [started.compiled]
    constructor
    · exact fun task member => absurd member List.not_mem_nil
    · exact fun task member => absurd member List.not_mem_nil
  · intro name
    apply Or.inr
    rw [started.unpublished]
    show Holds _ _ name (active.lookup name)
    have version := started.versions name
    cases wanted : active.lookup name with
    | none =>
      rw [wanted, Option.map_eq_none_iff] at version
      refine ⟨version, ?_⟩
      rw [started.unqueued]
      exact fun id p queued => nomatch queued
    | some wantedVersion =>
      rw [wanted] at version
      exact Or.inl (Option.map_eq_some_iff.mp version)

/-- Without failures, every run whose results are handled in time and whose swaps are
    left alone has converged whenever nothing is under way. -/
theorem converges_when_settled (cfg : Config) (active : KeyedMap String Version)
    (actions : List Action)
    (met : Meets (step cfg) (fun s a => undisturbed s a = true ∧ settles cfg s a = true)
      (onStart active) actions) :
    Always (step cfg) (Converged cfg active) (onStart active) actions :=
  always_of_meets (fun inv met taken => settling_step inv met.1 met.2 taken)
    converged_of_settling (settling_onStart cfg active) met

section sample

def twoInOrder : List Action :=
  [activation 1, activation 2, .compiled 0, .compiled 0, .die 0, .linkDied 0]

theorem last_activation_runs :
    (exec (step projectors) (onStart ∅) twoInOrder).map
      (fun final => final.actors.map fun a => (a.alive, a.version)) =
        some [(false, release 1 1 0), (true, release 1 2 0)] ∧
    Always (step projectors) (Converged projectors ∅) (onStart ∅) twoInOrder :=
  ⟨by decide +kernel, converges_when_settled projectors ∅ _ (by decide +kernel)⟩

def compiledAfterDeactivation : List Action :=
  [activation 1, .publish (.deactivated .projector "ledger"), .compiled 0]

theorem deactivated_module_runs : ∃ final,
    exec (step projectors) (onStart ∅) compiledAfterDeactivation = some final ∧
      Meets (step projectors) (fun s a => undisturbed s a = true) (onStart ∅)
        compiledAfterDeactivation ∧ ¬ Converged projectors ∅ final := by
  have seen : (exec (step projectors) (onStart ∅) compiledAfterDeactivation).map
      (fun final => (final.compiling, final.notices, final.actors, final.published)) =
        some ([], [], [⟨"ledger", release 1 1 0, 1, true, none, none, 2, none⟩],
          [.activated .projector "ledger" (release 1 1 0),
            .deactivated .projector "ledger"]) := by decide +kernel
  obtain ⟨final, run, fields⟩ := Option.map_eq_some_iff.mp seen
  simp only [Prod.mk.injEq] at fields
  obtain ⟨compiled, reaped, actors, published⟩ := fields
  refine ⟨final, run, by decide +kernel, ?_⟩
  intro converged
  have quiescent : Quiescent final := by
    refine ⟨compiled, reaped, ?_⟩
    intro id a found _
    rw [actors] at found
    obtain ⟨_, rfl⟩ := List.getElem?_eq_some_iff.mp found
    simp
  have runs : Runs final "ledger" (release 1 1 0) :=
    ⟨0, _, by rw [actors]; rfl, rfl, rfl, rfl⟩
  have wanted := (converged quiescent "ledger" (release 1 1 0)).mp runs
  rw [published] at wanted
  exact absurd wanted (by decide +kernel)

end sample
end UmariConvergence
