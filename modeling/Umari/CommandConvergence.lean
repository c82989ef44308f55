import Umari.CommandActor

/-!
Which version a call runs once the mailbox is empty and nothing compiles. It is the one
that the events intend exactly when the last component that was loaded since the last
event of the name, if one was, is of that version: the actor loads the result of every
compilation, whatever was published since its activation.
-/
namespace UmariCommandConvergence
open GuardedRuns KeyedMaps PositionedLogs UmariStateDatabases UmariModuleEvents
open UmariCommandActor UmariCommandActor.CommandActor

def Quiescent (s : CommandActor) : Prop := s.mailbox = [] ∧ s.compiling = []

/-- The component came with an activation of the name at its version, or with the start. -/
def Brought (active : KeyedMap String Version) (published : List ModuleEvent) (name : String)
    (loaded : VersionedModule) : Prop :=
  (loaded.component = 0 ∧ active.lookup name = some loaded.version) ∨
    (loaded.component, ModuleEvent.activated .command name loaded.version) ∈ entries published

def Serves (active : KeyedMap String Version) (s : CommandActor) (name : String)
    (version : Version) : Prop :=
  ∃ loaded, instantiateModule s.components name = .ok loaded ∧ loaded.version = version ∧
    Brought active s.published name loaded

def Converged (active : KeyedMap String Version) (s : CommandActor) (name : String) : Prop :=
  ∀ version, Serves active s name version ↔
    intended .command name (active.lookup name) s.published = some version

def succeeds : Action → Bool
  | .compileFailed _ => false
  | .handle loads => loads
  | _ => true

def advance (name : String) (loads : List ModuleCompiled) : Message → List ModuleCompiled
  | .moduleEvent _ event => if concerns .command name event then [] else loads
  | .moduleCompiled task => if task.name = name then loads ++ [task] else loads
  | .execute _ => loads

/-- The results for a name that were handled since the last event of the name was. -/
def loadedSince (name : String) (handled : List Message) : List ModuleCompiled :=
  handled.foldl (advance name) []

/-- The last result handled since the last event of the name is of the version that the
    event leaves active; after one that leaves none, no result is handled. -/
def Timely (active : KeyedMap String Version) (s : CommandActor) (name : String) : Prop :=
  ∀ task ∈ (loadedSince name s.handled).getLast?,
    intended .command name (active.lookup name) s.published = some task.version

def Pending (s : CommandActor) (task : ModuleCompiled) : Prop :=
  task ∈ s.compiling ∨ Message.moduleCompiled task ∈ s.mailbox

/-- The bytes of the task came with an activation of its name at its version. -/
def Known (published : List ModuleEvent) (task : ModuleCompiled) : Prop :=
  (task.component, ModuleEvent.activated .command task.name task.version) ∈ entries published

structure Sound (active : KeyedMap String Version) (s : CommandActor) : Prop where
  events : (s.handled ++ s.mailbox).filterMap Message.event = s.published
  numbered : ∀ number event, Message.moduleEvent number event ∈ s.mailbox →
    (number, event) ∈ entries s.published
  tasks : ∀ task, Pending s task → Known s.published task
  brought : ∀ name loaded, s.components.lookup name = some loaded →
    Brought active s.published name loaded

def versionOf (components : Components) (name : String) : Option Version :=
  (components.lookup name).map (·.version)

/-- What a name is left with: the last component loaded since its last event; before
    one is, what the event intends, or a compilation for it is still to come. -/
structure Ends (version : Option Version) (loads : List ModuleCompiled)
    (wanted : Option Version) (awaited : Prop) : Prop where
  latest : ∀ task, loads.getLast? = some task → version = some task.version
  unloaded : loads = [] → version = wanted ∨ awaited

def Awaited (s : CommandActor) (name : String) : Prop := ∃ task, Pending s task ∧ task.name = name

def wanted (active : KeyedMap String Version) (s : CommandActor) (name : String) :
    Option Version :=
  intended .command name (active.lookup name) (s.handled.filterMap Message.event)

def EndsAt (active : KeyedMap String Version) (s : CommandActor) (name : String) : Prop :=
  Ends (versionOf s.components name) (loadedSince name s.handled) (wanted active s name)
    (Awaited s name)

structure Inv (active : KeyedMap String Version) (s : CommandActor) : Prop where
  sound : Sound active s
  ends : ∀ name, EndsAt active s name

variable {active : KeyedMap String Version} {s t : CommandActor}

theorem serves_iff (sound : Sound active s) {name : String} {version : Version} :
    Serves active s name version ↔ versionOf s.components name = some version := by
  unfold Serves instantiateModule versionOf
  constructor
  · intro serves
    obtain ⟨loaded, found, rfl, _⟩ := serves
    cases held : s.components.lookup name with
    | none => simp [held] at found
    | some other =>
      simp only [held, Except.ok.injEq] at found
      rw [found]
      rfl
  · intro same
    obtain ⟨loaded, held, rfl⟩ := Option.map_eq_some_iff.mp same
    exact ⟨loaded, by rw [held], rfl, sound.brought name loaded held⟩

theorem converged_iff_timely (inv : Inv active s) (quiet : Quiescent s) (name : String) :
    Converged active s name ↔ Timely active s name := by
  obtain ⟨drained, compiled⟩ := quiet
  have all : s.handled.filterMap Message.event = s.published := by
    have events := inv.sound.events
    rw [drained, List.append_nil] at events
    exact events
  have ends := inv.ends name
  unfold EndsAt wanted at ends
  rw [all] at ends
  have runs : Converged active s name ↔ versionOf s.components name =
      intended .command name (active.lookup name) s.published := by
    unfold Converged
    constructor
    · intro converged
      apply Option.ext
      intro version
      exact (serves_iff inv.sound).symm.trans (converged version)
    · intro same version
      rw [serves_iff inv.sound, same]
  rw [runs]
  cases last : (loadedSince name s.handled).getLast? with
  | none =>
    have unloaded : loadedSince name s.handled = [] := List.getLast?_eq_none_iff.mp last
    have settled : versionOf s.components name =
        intended .command name (active.lookup name) s.published := by
      rcases ends.unloaded unloaded with same | ⟨task, pending, _⟩
      · exact same
      · rcases pending with running | sent
        · rw [compiled] at running
          exact absurd running List.not_mem_nil
        · rw [drained] at sent
          exact absurd sent List.not_mem_nil
    constructor
    · intro _ task member
      rw [last] at member
      exact absurd member (by simp)
    · exact fun _ => settled
  | some task =>
    rw [ends.latest task last]
    constructor
    · intro same other member
      rw [last] at member
      obtain rfl := Option.some.inj member
      exact same.symm
    · intro timely
      exact (timely task (by rw [last]; rfl)).symm

section messages
variable {m : Message} {rest : List Message}

theorem loadedSince_snoc (name : String) (handled : List Message) :
    loadedSince name (handled ++ [m]) = advance name (loadedSince name handled) m := by
  unfold loadedSince
  rw [List.foldl_append]
  rfl

theorem events_take (next : s.mailbox = m :: rest) :
    (s.take m rest).handled ++ (s.take m rest).mailbox = s.handled ++ s.mailbox := by
  rw [next]
  exact List.append_assoc s.handled [m] rest

theorem pending_take {task : ModuleCompiled} (next : s.mailbox = m :: rest)
    (pending : Pending (s.take m rest) task) : Pending s task := by
  rcases pending with running | sent
  · exact Or.inl running
  · apply Or.inr
    rw [next]
    exact List.mem_cons_of_mem m sent

theorem sound_take (sound : Sound active s) (next : s.mailbox = m :: rest) :
    Sound active (s.take m rest) := by
  constructor
  · rw [events_take next]
    exact sound.events
  · intro number event member
    apply sound.numbered
    rw [next]
    exact List.mem_cons_of_mem m member
  · exact fun task pending => sound.tasks task (pending_take next pending)
  · exact sound.brought

end messages

theorem brought_later {published more : List ModuleEvent} {name : String}
    {loaded : VersionedModule} (brought : Brought active published name loaded) :
    Brought active (published ++ more) name loaded := by
  rcases brought with start | later
  · exact Or.inl start
  · exact Or.inr (mem_entries_append_left later)

theorem sound_publish (sound : Sound active s) (event : ModuleEvent) :
    Sound active ((s.note event).send (.moduleEvent (s.published.length + 1) event)) := by
  constructor
  · show (s.handled ++ (s.mailbox ++ [Message.moduleEvent _ event])).filterMap Message.event =
      s.published ++ [event]
    rw [← List.append_assoc, List.filterMap_append, sound.events]
    rfl
  · intro number other member
    show (number, other) ∈ entries (s.published ++ [event])
    rcases List.mem_append.mp member with old | new
    · exact mem_entries_append_left (sound.numbered number other old)
    · obtain ⟨rfl, rfl⟩ := Message.moduleEvent.inj (List.mem_singleton.mp new)
      rw [entries_append]
      exact List.mem_append.mpr (Or.inr (List.mem_singleton.mpr rfl))
  · intro task pending
    apply mem_entries_append_left
    apply sound.tasks task
    rcases pending with running | sent
    · exact Or.inl running
    · rcases List.mem_append.mp sent with old | new
      · exact Or.inr old
      · exact absurd (List.mem_singleton.mp new) (by simp)
  · exact fun name loaded found => brought_later (sound.brought name loaded found)

theorem sound_send (sound : Sound active s) {m : Message} (eventless : m.event = none)
    (known : ∀ task, m = .moduleCompiled task → Known s.published task) :
    Sound active (s.send m) := by
  constructor
  · show (s.handled ++ (s.mailbox ++ [m])).filterMap Message.event = s.published
    rw [← List.append_assoc, List.filterMap_append, sound.events]
    simp [eventless]
  · intro number event member
    rcases List.mem_append.mp member with old | new
    · exact sound.numbered number event old
    · rw [← List.mem_singleton.mp new] at eventless
      exact absurd eventless (by simp [Message.event])
  · intro task pending
    rcases pending with running | sent
    · exact sound.tasks task (Or.inl running)
    · rcases List.mem_append.mp sent with old | new
      · exact sound.tasks task (Or.inr old)
      · exact known task (List.mem_singleton.mp new).symm
  · exact sound.brought

theorem sound_compiling (sound : Sound active s) {compiling : List ModuleCompiled}
    (known : ∀ task ∈ compiling, Known s.published task) :
    Sound active { s with compiling := compiling } := by
  constructor
  · exact sound.events
  · exact sound.numbered
  · intro task pending
    rcases pending with running | sent
    · exact known task running
    · exact sound.tasks task (Or.inr sent)
  · exact sound.brought

theorem sound_components (sound : Sound active s) {components : Components}
    (brought : ∀ name loaded, components.lookup name = some loaded →
      Brought active s.published name loaded) :
    Sound active { s with components := components } := by
  constructor
  · exact sound.events
  · exact sound.numbered
  · exact sound.tasks
  · exact brought

theorem sound_step {a : Action} (sound : Sound active s) (taken : step s a = some t) :
    Sound active t := by
  have kept : ∀ index, Sound active { s with compiling := s.compiling.eraseIdx index } :=
    fun index => sound_compiling sound fun task member =>
      sound.tasks task (Or.inl (List.mem_of_mem_eraseIdx member))
  cases moved_of_step taken with
  | published event => exact sound_publish sound event
  | finished index task found =>
    apply sound_send (kept index) rfl
    intro other same
    obtain rfl := Message.moduleCompiled.inj same
    exact sound.tasks task (Or.inl (List.mem_of_getElem? found))
  | compileFailed index => exact kept index
  | called name =>
    apply sound_send sound rfl
    intro task same
    exact absurd same (by simp)
  | foreign _ number event rest next => exact sound_take sound next
  | alreadyLoaded _ number name version rest current next => exact sound_take sound next
  | compiles _ number name version rest next =>
    apply sound_compiling (sound_take sound next)
    intro task member
    rcases List.mem_append.mp member with old | new
    · exact sound.tasks task (Or.inl old)
    · rw [List.mem_singleton.mp new]
      apply sound.numbered number (.activated .command name version)
      rw [next]
      exact List.mem_cons_self
  | unloaded _ number event rest next =>
    apply sound_components (sound_take sound next)
    intro name loaded found
    exact sound.brought name loaded (lookup_erase_some.mp found).2
  | loaded task rest next =>
    apply sound_components (sound_take sound next)
    intro name loaded found
    have here : (loadModule s.components task.name task.version task.component).lookup name =
        some loaded := found
    rw [lookup_loadModule] at here
    split at here
    · rename_i same
      subst same
      obtain rfl := Option.some.inj here
      apply Or.inr
      apply sound.tasks task
      apply Or.inr
      rw [next]
      exact List.mem_cons_self
    · exact sound.brought name loaded here
  | loadFailed task rest next => exact sound_take sound next
  | executed _ name rest next =>
    have taken := sound_take sound next
    exact ⟨taken.events, taken.numbered, taken.tasks, taken.brought⟩

theorem ends_carry {name : String} (ends : EndsAt active s name)
    (version : versionOf t.components name = versionOf s.components name)
    (loads : loadedSince name t.handled = loadedSince name s.handled)
    (intends : wanted active t name = wanted active s name)
    (awaits : Awaited s name → Awaited t name) : EndsAt active t name := by
  unfold EndsAt
  rw [version, loads, intends]
  constructor
  · exact ends.latest
  · intro none
    rcases ends.unloaded none with same | awaited
    · exact Or.inl same
    · exact Or.inr (awaits awaited)

theorem awaited_send {name : String} {m : Message} (awaited : Awaited s name) :
    Awaited (s.send m) name := by
  obtain ⟨task, pending, named⟩ := awaited
  refine ⟨task, ?_, named⟩
  rcases pending with running | sent
  · exact Or.inl running
  · exact Or.inr (List.mem_append.mpr (Or.inl sent))

theorem awaited_take {name : String} {m : Message} {rest : List Message}
    (next : s.mailbox = m :: rest) (other : ∀ task, m = .moduleCompiled task → task.name ≠ name)
    (awaited : Awaited s name) : Awaited (s.take m rest) name := by
  obtain ⟨task, pending, named⟩ := awaited
  refine ⟨task, ?_, named⟩
  rcases pending with running | sent
  · exact Or.inl running
  · rw [next] at sent
    rcases List.mem_cons.mp sent with here | later
    · exact absurd named (other task here.symm)
    · exact Or.inr later

theorem awaited_finished {name : String} {index : Nat} {task : ModuleCompiled}
    (found : s.compiling[index]? = some task) (awaited : Awaited s name) :
    Awaited (send { s with compiling := s.compiling.eraseIdx index } (.moduleCompiled task))
      name := by
  obtain ⟨other, pending, named⟩ := awaited
  refine ⟨other, ?_, named⟩
  rcases pending with running | sent
  · obtain ⟨j, held⟩ := List.mem_iff_getElem?.mp running
    by_cases same : j = index
    · subst same
      obtain rfl := Option.some.inj (found.symm.trans held)
      exact Or.inr (List.mem_append.mpr (Or.inr (List.mem_singleton.mpr rfl)))
    · exact Or.inl (List.mem_eraseIdx_iff_getElem?.mpr ⟨j, same, held⟩)
  · exact Or.inr (List.mem_append.mpr (Or.inl sent))

theorem ends_quiet {name : String} {m : Message} {rest : List Message}
    (ends : EndsAt active s name) (next : s.mailbox = m :: rest)
    (loads : advance name (loadedSince name s.handled) m = loadedSince name s.handled)
    (unasked : ∀ event, m.event = some event → concerns .command name event = false)
    (other : ∀ task, m = .moduleCompiled task → task.name ≠ name) :
    EndsAt active (s.take m rest) name := by
  apply ends_carry ends
  · rfl
  · exact (loadedSince_snoc name s.handled).trans loads
  · show intended .command name (active.lookup name)
        ((s.handled ++ [m]).filterMap Message.event) = wanted active s name
    rw [List.filterMap_append]
    cases about : m.event with
    | none => simp [about, wanted]
    | some event => simp [about, intended_snoc, unasked event about, wanted]
  · exact awaited_take next other

theorem ends_foreign {name : String} {number : Nat} {event : ModuleEvent} {rest : List Message}
    (ends : EndsAt active s name) (next : s.mailbox = .moduleEvent number event :: rest)
    (foreign : concerns .command name event = false) :
    EndsAt active (s.take (.moduleEvent number event) rest) name := by
  apply ends_quiet ends next
  · simp [advance, foreign]
  · intro other same
    obtain rfl := Option.some.inj same
    exact foreign
  · exact fun task same => absurd same (by simp)

theorem ends_event {name : String} {number : Nat} {event : ModuleEvent}
    (about : concerns .command name event = true)
    (handled : t.handled = s.handled ++ [.moduleEvent number event])
    (leaves : versionOf t.components name = event.version ∨ Awaited t name) :
    EndsAt active t name := by
  have loads : loadedSince name t.handled = [] := by
    rw [handled, loadedSince_snoc]
    simp [advance, about]
  have intends : wanted active t name = event.version := by
    unfold wanted
    rw [handled, List.filterMap_append]
    simp [Message.event, intended_snoc, about]
  unfold EndsAt
  rw [loads, intends]
  constructor
  · exact fun task last => absurd last (by simp)
  · exact fun _ => leaves

theorem versionOf_loadModule (components : Components) (task : ModuleCompiled) (name : String) :
    versionOf (loadModule components task.name task.version task.component) name =
      if name = task.name then some task.version else versionOf components name := by
  unfold versionOf
  rw [lookup_loadModule]
  split
  · rfl
  · rfl

theorem ends_loaded (ends : ∀ name, EndsAt active s name) {task : ModuleCompiled}
    {rest : List Message} (next : s.mailbox = .moduleCompiled task :: rest) (name : String) :
    EndsAt active ((s.take (.moduleCompiled task) rest).moduleCompiled task) name := by
  by_cases same : task.name = name
  · subst same
    have loads : loadedSince task.name (s.handled ++ [.moduleCompiled task]) =
        loadedSince task.name s.handled ++ [task] := by
      rw [loadedSince_snoc, advance, if_pos rfl]
    constructor
    · intro last member
      have here : (loadedSince task.name (s.handled ++ [.moduleCompiled task])).getLast? =
          some last := member
      rw [loads, List.getLast?_concat] at here
      obtain rfl := Option.some.inj here
      exact (versionOf_loadModule s.components task task.name).trans (if_pos rfl)
    · intro empty
      have none : loadedSince task.name (s.handled ++ [.moduleCompiled task]) = [] := empty
      rw [loads] at none
      exact absurd none (by simp)
  · have kept := ends_quiet (ends name) next (by rw [advance, if_neg same])
      (fun _ none => absurd none (by simp [Message.event])) (by
      intro other equal
      obtain rfl := Message.moduleCompiled.inj equal
      exact same)
    apply ends_carry kept
    · exact (versionOf_loadModule s.components task name).trans (if_neg (Ne.symm same))
    · rfl
    · rfl
    · exact fun awaited => awaited

theorem ends_step {a : Action} (ends : ∀ name, EndsAt active s name)
    (success : succeeds a = true) (taken : step s a = some t) (name : String) :
    EndsAt active t name := by
  cases moved_of_step taken with
  | published event => exact ends_carry (ends name) rfl rfl rfl awaited_send
  | finished index task found =>
    exact ends_carry (ends name) rfl rfl rfl (awaited_finished found)
  | compileFailed => exact absurd success (by simp [succeeds])
  | called => exact ends_carry (ends name) rfl rfl rfl awaited_send
  | foreign _ number event rest next other =>
    apply ends_foreign (ends name) next
    apply Bool.eq_false_iff.mpr
    intro about
    exact other (concerns_iff.mp about).1
  | alreadyLoaded _ number other version rest current next found same =>
    by_cases about : concerns .command name (.activated .command other version) = true
    · apply ends_event about
      · rfl
      · obtain rfl : other = name := (concerns_iff.mp about).2
        apply Or.inl
        show (s.components.lookup other).map (·.version) = some version
        rw [found, Option.map_some, same]
    · exact ends_foreign (ends name) next (Bool.eq_false_iff.mpr about)
  | compiles _ number other version rest next =>
    by_cases about : concerns .command name (.activated .command other version) = true
    · apply ends_event about
      · rfl
      · apply Or.inr
        refine ⟨⟨other, version, number⟩, ?_, (concerns_iff.mp about).2⟩
        exact Or.inl (List.mem_append.mpr (Or.inr (List.mem_singleton.mpr rfl)))
    · apply ends_carry (ends_foreign (ends name) next (Bool.eq_false_iff.mpr about))
      · rfl
      · rfl
      · rfl
      · intro awaited
        obtain ⟨task, pending, named⟩ := awaited
        refine ⟨task, ?_, named⟩
        rcases pending with running | sent
        · exact Or.inl (List.mem_append.mpr (Or.inl running))
        · exact Or.inr sent
  | unloaded _ number event rest next own none =>
    by_cases about : concerns .command name event = true
    · apply ends_event about
      · rfl
      · obtain rfl : event.name = name := (concerns_iff.mp about).2
        apply Or.inl
        show ((s.components.erase event.name).lookup event.name).map (·.version) = event.version
        rw [AList.lookup_erase, none]
        rfl
    · have different : name ≠ event.name := by
        intro same
        exact about (concerns_iff.mpr ⟨own, same.symm⟩)
      apply ends_carry (ends_foreign (ends name) next (Bool.eq_false_iff.mpr about))
      · show ((s.components.erase event.name).lookup name).map (·.version) =
          versionOf s.components name
        rw [AList.lookup_erase_ne different]
        rfl
      · rfl
      · rfl
      · exact fun awaited => awaited
  | loaded task rest next => exact ends_loaded ends next name
  | loadFailed => exact absurd success (by simp [succeeds])
  | executed _ other rest next =>
    have kept := ends_quiet (ends name) next rfl
      (fun _ none => absurd none (by simp [Message.event])) (fun task same => absurd same (by simp))
    apply ends_carry kept
    · rfl
    · rfl
    · rfl
    · exact fun awaited => awaited

theorem inv_step {a : Action} (inv : Inv active s) (success : succeeds a = true)
    (taken : step s a = some t) : Inv active t where
  sound := sound_step inv.sound taken
  ends := ends_step inv.ends success taken

theorem inv_onStart (active : KeyedMap String Version) : Inv active (onStart active) := by
  have entry : ∀ name, versionOf (onStart active).components name = active.lookup name := by
    intro name
    unfold versionOf
    rw [onStart_lookup, Option.map_map]
    exact Option.map_id'
  constructor
  · constructor
    · rfl
    · exact fun number event member => absurd member List.not_mem_nil
    · intro task pending
      rcases pending with running | sent
      · exact absurd running List.not_mem_nil
      · exact absurd sent List.not_mem_nil
    · intro name loaded found
      rw [onStart_lookup] at found
      obtain ⟨version, listed, rfl⟩ := Option.map_eq_some_iff.mp found
      exact Or.inl ⟨rfl, listed⟩
  · intro name
    constructor
    · exact fun task last => absurd last (by simp [loadedSince, onStart])
    · exact fun _ => Or.inl (entry name)

/-- In every run without a failure, once no message and no compilation is pending: the
    components of a name are what its events intend iff the last result handled since
    its last event is of the version that event leaves active. -/
theorem converges_iff_timely (active : KeyedMap String Version) (actions : List Action)
    {final : CommandActor} (run : exec step (onStart active) actions = some final)
    (success : ∀ a ∈ actions, succeeds a = true) (quiet : Quiescent final) (name : String) :
    Converged active final name ↔ Timely active final name := by
  have met : Meets step (fun _ a => succeeds a = true) (onStart active) actions :=
    meets_of_mem (fun _ => success) (onStart active)
  have inv := guarded_invariant (fun held met taken => inv_step held met taken)
    (inv_onStart active) run met
  exact converged_iff_timely inv quiet name

section sample

def activated (minor : Nat) : Action :=
  .publish (.activated .command "transfer" (release 1 minor 0))

def upgrade : List Action :=
  [activated 1, .handle true, activated 2, .handle true, .compiled 0, .compiled 0,
    .handle true, .handle true]

theorem upgrade_serves_last : ∃ final, exec step (onStart ∅) upgrade = some final ∧
    Converged ∅ final "transfer" := by
  have seen : (exec step (onStart ∅) upgrade).map
      (fun final => (final.mailbox, final.compiling, final.handled, final.published)) =
        some ([], [], [.moduleEvent 1 (.activated .command "transfer" (release 1 1 0)),
            .moduleEvent 2 (.activated .command "transfer" (release 1 2 0)),
            .moduleCompiled ⟨"transfer", release 1 1 0, 1⟩,
            .moduleCompiled ⟨"transfer", release 1 2 0, 2⟩],
          [.activated .command "transfer" (release 1 1 0),
            .activated .command "transfer" (release 1 2 0)]) := by decide +kernel
  obtain ⟨final, run, fields⟩ := Option.map_eq_some_iff.mp seen
  simp only [Prod.mk.injEq] at fields
  obtain ⟨drained, compiled, handled, published⟩ := fields
  refine ⟨final, run, ?_⟩
  apply (converges_iff_timely ∅ upgrade run (by decide) ⟨drained, compiled⟩ "transfer").mpr
  unfold Timely
  rw [handled, published]
  decide

/-- The command is deactivated while it compiles, and is loaded when that is done. -/
theorem deactivated_command_served : ∃ final,
    exec step (onStart ∅) [activated 1, .handle true,
      .publish (.deactivated .command "transfer"), .handle true, .compiled 0, .handle true] =
        some final ∧ Quiescent final ∧ ¬ Converged ∅ final "transfer" := by
  have seen : (exec step (onStart ∅) [activated 1, .handle true,
      .publish (.deactivated .command "transfer"), .handle true, .compiled 0,
      .handle true]).map (fun final => (final.mailbox, final.compiling, final.published,
        final.components.lookup "transfer")) =
      some ([], [], [.activated .command "transfer" (release 1 1 0),
        .deactivated .command "transfer"], some ⟨release 1 1 0, 1⟩) := by decide +kernel
  obtain ⟨final, run, fields⟩ := Option.map_eq_some_iff.mp seen
  simp only [Prod.mk.injEq] at fields
  obtain ⟨drained, compiled, published, entry⟩ := fields
  refine ⟨final, run, ⟨drained, compiled⟩, ?_⟩
  intro converged
  have serves : Serves ∅ final "transfer" (release 1 1 0) := by
    refine ⟨⟨release 1 1 0, 1⟩, ?_, rfl, ?_⟩
    · rw [instantiateModule, entry]
    · apply Or.inr
      rw [published]
      decide
  have intends := (converged (release 1 1 0)).mp serves
  rw [published] at intends
  exact absurd intends (by decide)

end sample
end UmariCommandConvergence
