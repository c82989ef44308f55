import Umari.GuardedRuns
import Umari.KeyedMaps
import Umari.ModuleEvents

/-!
The command actor holds one component per command and replaces it in place. Module
events, the results of compilations and calls come to it through one mailbox; the
compilations finish in any order. A component is named by the number of the event that
brought its bytes, zero at the start. `published`, `handled` and `replies` record the
history; no step reads them but to number an event.
-/
namespace UmariCommandActor
open KeyedMaps UmariStateDatabases UmariModuleEvents

structure VersionedModule where
  version : Version
  component : Nat
deriving DecidableEq, Repr

structure ModuleCompiled where
  name : String
  version : Version
  component : Nat
deriving DecidableEq, Repr

inductive CommandError where
  | moduleNotFound (name : String)
deriving DecidableEq, Repr

inductive Message where
  | moduleEvent (number : Nat) (event : ModuleEvent)
  | moduleCompiled (task : ModuleCompiled)
  | execute (name : String)
deriving DecidableEq, Repr

def Message.event : Message → Option ModuleEvent
  | .moduleEvent _ event => some event
  | .moduleCompiled _ => none
  | .execute _ => none

abbrev Components := KeyedMap String VersionedModule

structure CommandActor where
  components : Components
  compiling : List ModuleCompiled
  mailbox : List Message
  published : List ModuleEvent
  handled : List Message
  replies : List (String × Except CommandError VersionedModule)

inductive Action where
  | publish (event : ModuleEvent)
  | compiled (index : Nat)
  | compileFailed (index : Nat)
  | execute (name : String)
  -- the next message; `loads` tells whether a component that it brings can be instantiated
  | handle (loads : Bool)
deriving DecidableEq, Repr

/-- The module a call of the command runs on. -/
def instantiateModule (components : Components) (name : String) :
    Except CommandError VersionedModule :=
  match components.lookup name with
  | none => .error (.moduleNotFound name)
  | some loaded => .ok loaded

def loadModule (components : Components) (name : String) (version : Version) (component : Nat) :
    Components := (components.erase name).insert name ⟨version, component⟩

namespace CommandActor

def compile (s : CommandActor) (number : Nat) (name : String) (version : Version) :
    CommandActor := { s with compiling := s.compiling ++ [⟨name, version, number⟩] }

def handleActivated (s : CommandActor) (number : Nat) (name : String) (version : Version) :
    CommandActor :=
  match s.components.lookup name with
  | some current => if current.version = version then s else s.compile number name version
  | none => s.compile number name version

def unload (s : CommandActor) (name : String) : CommandActor :=
  { s with components := s.components.erase name }

def handleEvent (s : CommandActor) (number : Nat) (event : ModuleEvent) : CommandActor :=
  match event with
  | .activated moduleType name version =>
    if moduleType = .command then s.handleActivated number name version else s
  | .deactivated moduleType name => if moduleType = .command then s.unload name else s
  | .deleted moduleType name => if moduleType = .command then s.unload name else s

def moduleCompiled (s : CommandActor) (task : ModuleCompiled) : CommandActor :=
  { s with components := loadModule s.components task.name task.version task.component }

def execute (s : CommandActor) (name : String) : CommandActor :=
  { s with replies := s.replies ++ [(name, instantiateModule s.components name)] }

def handleMessage (s : CommandActor) (loads : Bool) (message : Message) : CommandActor :=
  match message with
  | .moduleEvent number event => s.handleEvent number event
  | .moduleCompiled task => if loads then s.moduleCompiled task else s
  | .execute name => s.execute name

def send (s : CommandActor) (message : Message) : CommandActor :=
  { s with mailbox := s.mailbox ++ [message] }

def note (s : CommandActor) (event : ModuleEvent) : CommandActor :=
  { s with published := s.published ++ [event] }

def take (s : CommandActor) (message : Message) (rest : List Message) : CommandActor :=
  { s with mailbox := rest, handled := s.handled ++ [message] }

end CommandActor

open CommandActor

def step (s : CommandActor) : Action → Option CommandActor
  | .publish event => some ((s.note event).send (.moduleEvent (s.published.length + 1) event))
  | .compiled index =>
    match s.compiling[index]? with
    | none => none
    | some task =>
      some (send { s with compiling := s.compiling.eraseIdx index } (.moduleCompiled task))
  | .compileFailed index =>
    match s.compiling[index]? with
    | none => none
    | some _ => some { s with compiling := s.compiling.eraseIdx index }
  | .execute name => some (s.send (.execute name))
  | .handle loads =>
    match s.mailbox with
    | [] => none
    | message :: rest => some ((s.take message rest).handleMessage loads message)

/-- The actor as its start leaves it: every active command that compiled is loaded. -/
def onStart (active : KeyedMap String Version) : CommandActor where
  components := active.entries.foldl
    (fun components entry => loadModule components entry.1 entry.2 0) ∅
  compiling := []
  mailbox := []
  published := []
  handled := []
  replies := []

inductive Moved (s : CommandActor) : Action → CommandActor → Prop where
  | published (event : ModuleEvent) :
      Moved s (.publish event)
        ((s.note event).send (.moduleEvent (s.published.length + 1) event))
  | finished (index : Nat) (task : ModuleCompiled) (found : s.compiling[index]? = some task) :
      Moved s (.compiled index)
        (send { s with compiling := s.compiling.eraseIdx index } (.moduleCompiled task))
  | compileFailed (index : Nat) :
      Moved s (.compileFailed index) { s with compiling := s.compiling.eraseIdx index }
  | called (name : String) : Moved s (.execute name) (s.send (.execute name))
  | foreign (loads : Bool) (number : Nat) (event : ModuleEvent) (rest : List Message)
      (next : s.mailbox = .moduleEvent number event :: rest) (other : event.moduleType ≠ .command) :
      Moved s (.handle loads) (s.take (.moduleEvent number event) rest)
  | alreadyLoaded (loads : Bool) (number : Nat) (name : String) (version : Version)
      (rest : List Message) (current : VersionedModule)
      (next : s.mailbox = .moduleEvent number (.activated .command name version) :: rest)
      (found : s.components.lookup name = some current) (same : current.version = version) :
      Moved s (.handle loads)
        (s.take (.moduleEvent number (.activated .command name version)) rest)
  | compiles (loads : Bool) (number : Nat) (name : String) (version : Version)
      (rest : List Message)
      (next : s.mailbox = .moduleEvent number (.activated .command name version) :: rest) :
      Moved s (.handle loads)
        ((s.take (.moduleEvent number (.activated .command name version)) rest).compile
          number name version)
  | unloaded (loads : Bool) (number : Nat) (event : ModuleEvent) (rest : List Message)
      (next : s.mailbox = .moduleEvent number event :: rest)
      (own : event.moduleType = .command) (ends : event.version = none) :
      Moved s (.handle loads) ((s.take (.moduleEvent number event) rest).unload event.name)
  | loaded (task : ModuleCompiled) (rest : List Message)
      (next : s.mailbox = .moduleCompiled task :: rest) :
      Moved s (.handle true) ((s.take (.moduleCompiled task) rest).moduleCompiled task)
  | loadFailed (task : ModuleCompiled) (rest : List Message)
      (next : s.mailbox = .moduleCompiled task :: rest) :
      Moved s (.handle false) (s.take (.moduleCompiled task) rest)
  | executed (loads : Bool) (name : String) (rest : List Message)
      (next : s.mailbox = .execute name :: rest) :
      Moved s (.handle loads) ((s.take (.execute name) rest).execute name)

variable {s t : CommandActor}

theorem moved_of_event {number : Nat} {event : ModuleEvent} {rest : List Message} (loads : Bool)
    (next : s.mailbox = .moduleEvent number event :: rest) :
    Moved s (.handle loads)
      ((s.take (.moduleEvent number event) rest).handleEvent number event) := by
  by_cases own : event.moduleType = .command
  · cases event with
    | activated moduleType name version =>
      obtain rfl : moduleType = .command := own
      simp only [handleEvent, ↓reduceIte, handleActivated]
      cases found : s.components.lookup name with
      | none =>
        have same : (s.take (.moduleEvent number (.activated .command name version))
            rest).components.lookup name = none := found
        rw [same]
        exact Moved.compiles loads number name version rest next
      | some current =>
        have same : (s.take (.moduleEvent number (.activated .command name version))
            rest).components.lookup name = some current := found
        rw [same]
        dsimp only
        split
        · rename_i equal
          exact Moved.alreadyLoaded loads number name version rest current next found equal
        · exact Moved.compiles loads number name version rest next
    | deactivated moduleType name =>
      obtain rfl : moduleType = .command := own
      exact Moved.unloaded loads number (.deactivated .command name) rest next rfl rfl
    | deleted moduleType name =>
      obtain rfl : moduleType = .command := own
      exact Moved.unloaded loads number (.deleted .command name) rest next rfl rfl
  · have ignored : (s.take (.moduleEvent number event) rest).handleEvent number event =
        s.take (.moduleEvent number event) rest := by
      cases event with
      | activated moduleType name version => exact if_neg own
      | deactivated moduleType name => exact if_neg own
      | deleted moduleType name => exact if_neg own
    rw [ignored]
    exact Moved.foreign loads number event rest next own

theorem moved_of_step {a : Action} (taken : step s a = some t) : Moved s a t := by
  cases a with
  | publish event =>
    cases taken
    exact Moved.published event
  | compiled index =>
    cases found : s.compiling[index]? with
    | none => simp [step, found] at taken
    | some task =>
      simp only [step, found, Option.some.injEq] at taken
      subst taken
      exact Moved.finished index task found
  | compileFailed index =>
    cases found : s.compiling[index]? with
    | none => simp [step, found] at taken
    | some task =>
      simp only [step, found, Option.some.injEq] at taken
      subst taken
      exact Moved.compileFailed index
  | execute name =>
    cases taken
    exact Moved.called name
  | handle loads =>
    cases next : s.mailbox with
    | nil => simp [step, next] at taken
    | cons message rest =>
      simp only [step, next, Option.some.injEq] at taken
      subst taken
      cases message with
      | moduleEvent number event => exact moved_of_event loads next
      | moduleCompiled task =>
        cases loads with
        | true => exact Moved.loaded task rest next
        | false => exact Moved.loadFailed task rest next
      | execute name => exact Moved.executed loads name rest next

theorem lookup_loadModule (components : Components) (name other : String) (version : Version)
    (component : Nat) :
    (loadModule components name version component).lookup other =
      if other = name then some ⟨version, component⟩ else components.lookup other := by
  unfold loadModule
  by_cases same : other = name
  · rw [if_pos same, same, AList.lookup_insert]
  · rw [if_neg same, AList.lookup_insert_ne same, AList.lookup_erase_ne same]

theorem onStart_lookup (active : KeyedMap String Version) (name : String) :
    (onStart active).components.lookup name =
      (active.lookup name).map fun version => ⟨version, 0⟩ := by
  have loaded := lookup_foldl (f := fun version => (⟨version, 0⟩ : VersionedModule))
    (fun components name version other => lookup_loadModule components name other version 0)
    active.entries active.nodupKeys ∅ name
  rw [AList.lookup_empty, Option.or_none] at loaded
  exact loaded

end UmariCommandActor
