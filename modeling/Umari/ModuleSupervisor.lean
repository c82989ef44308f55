import Umari.GuardedRuns
import Umari.KeyedMaps
import Umari.NumberedLists
import Umari.ModuleEvents
import Mathlib.Logic.Function.Basic

/-!
The supervisor of the modules of one type, with the actors it spawned, its compile
tasks, the link-died notices and delayed restarts on their way to it, and the state
files. Its own handlers are atomic. Tasks finish, actors start, write, stop or fail,
and notices arrive in any order. A component is named by the number of the event that
brought its bytes. `asked`, `spawned` and `startedOn` of an actor and `published`
record the history; no step reads them but to number what is new.
-/
namespace UmariModuleSupervisor
open KeyedMaps NumberedLists PositionedLogs UmariStateDatabases UmariModuleEvents

structure Config where
  moduleType : ModuleType
  retryOnFailure : Bool

structure PendingModule where
  version : Version
  component : Nat
  resetDb : Bool
deriving DecidableEq, Repr

structure VersionedModule where
  version : Version
  actor : Nat
  component : Nat
deriving DecidableEq, Repr

structure ModuleBackoffState where
  delay : Nat
  lastFailedPosition : Option Nat
  attempt : Nat
deriving DecidableEq, Repr

/-- A compilation with the message it will send, also used for a delayed restart. -/
structure ModuleCompiled where
  name : String
  version : Version
  component : Nat
deriving DecidableEq, Repr

inductive StopReason where
  | replaced
  | deactivated
  | deleted
deriving DecidableEq, Repr

/-- One committed transaction of an actor: the number of events published before it,
    and the `last_position` it stored. -/
structure Write where
  number : Nat
  position : Option Nat
deriving DecidableEq, Repr

abbrev StateDb := Database (List Write)

structure ModuleActor where
  name : String
  version : Version
  component : Nat
  alive : Bool
  opened : Option Nat
  asked : Option StopReason
  spawned : Nat
  startedOn : Option StateDb
deriving DecidableEq, Repr

structure Supervisor where
  modules : KeyedMap String VersionedModule
  pending : KeyedMap Nat (String × PendingModule)
  pendingDeletions : KeyedMap Nat String
  backoff : KeyedMap String ModuleBackoffState
  actors : List ModuleActor
  compiling : List ModuleCompiled
  notices : List Nat
  restarts : List ModuleCompiled
  files : String → Option Nat
  inodes : List StateDb
  published : List ModuleEvent

inductive Action where
  | publish (event : ModuleEvent)
  | compiled (index : Nat)
  | compileFailed (index : Nat)
  | reset (name : String) (version : Version) (component : Nat)
  | restart (index : Nat)
  | linkDied (index : Nat)
  | start (id : Nat)
  | write (id : Nat) (position : Option Nat)
  | die (id : Nat)
deriving DecidableEq, Repr

def commitWrite (db : StateDb) (write : Write) : StateDb where
  row := match write.position with
    | none => db.row
    | some position => db.row.map fun row => { row with lastPosition := some position }
  tables := db.tables ++ [write]

namespace Supervisor

def isAlive (s : Supervisor) (id : Nat) : Bool := (s.actors[id]?).any (·.alive)

/-- The stop is sent from a task of its own; the actor dies at any later time. -/
def stopGracefully (s : Supervisor) (id : Nat) (reason : StopReason) : Supervisor :=
  { s with actors := s.actors.modify id fun a => { a with asked := some reason } }

/-- The database, its journal and its shared memory file; open handles live on. -/
def removeStateFiles (s : Supervisor) (name : String) : Supervisor :=
  { s with files := Function.update s.files name none }

def stateDb (s : Supervisor) (name : String) : Option StateDb :=
  (s.files name).bind fun inode => s.inodes[inode]?

def readLastPosition (s : Supervisor) (name : String) : Option Nat :=
  (s.stateDb name).bind fun db => storedPosition db.row

def newActor (s : Supervisor) (name : String) (pending : PendingModule) : ModuleActor where
  name := name
  version := pending.version
  component := pending.component
  alive := true
  opened := none
  asked := none
  spawned := s.published.length
  startedOn := none

def spawnModule (s : Supervisor) (name : String) (pending : PendingModule) : Supervisor :=
  { s with
    files := if pending.resetDb then Function.update s.files name none else s.files
    actors := s.actors ++ [s.newActor name pending]
    modules := s.modules.insert name ⟨pending.version, s.actors.length, pending.component⟩ }

def forget (s : Supervisor) (name : String) : Supervisor :=
  { s with modules := s.modules.erase name, backoff := s.backoff.erase name }

def queueSwap (s : Supervisor) (name : String) (old : VersionedModule)
    (pending : PendingModule) : Supervisor :=
  stopGracefully { s with pending := s.pending.insert old.actor (name, pending) }
    old.actor .replaced

/-- The common end of `load_module` and `reset`: a live actor is stopped and replaced
    when it has died, otherwise the module is spawned now. -/
def replaceModule (s : Supervisor) (name : String) (pending : PendingModule) : Supervisor :=
  match s.modules.lookup name with
  | some old => if s.isAlive old.actor then (s.forget name).queueSwap name old pending
      else (s.forget name).spawnModule name pending
  | none => (s.forget name).spawnModule name pending

def loadModule (s : Supervisor) (name : String) (version : Version) (component : Nat) :
    Supervisor := s.replaceModule name ⟨version, component, false⟩

def compile (s : Supervisor) (name : String) (version : Version) : Supervisor :=
  { s with compiling := s.compiling ++ [⟨name, version, s.published.length⟩] }

def handleActivated (s : Supervisor) (name : String) (version : Version) : Supervisor :=
  match s.modules.lookup name with
  | some current => if s.isAlive current.actor ∧ current.version = version then s
      else s.compile name version
  | none => s.compile name version

def handleDeactivated (s : Supervisor) (name : String) : Supervisor :=
  match s.modules.lookup name with
  | some loaded => (s.forget name).stopGracefully loaded.actor .deactivated
  | none => s.forget name

def queueDeletion (s : Supervisor) (name : String) (loaded : VersionedModule) : Supervisor :=
  stopGracefully { s with pendingDeletions := s.pendingDeletions.insert loaded.actor name }
    loaded.actor .deleted

def handleDeleted (s : Supervisor) (name : String) : Supervisor :=
  match s.modules.lookup name with
  | some loaded =>
    -- removal waits for the link of the stopped actor
    if s.isAlive loaded.actor then (s.forget name).queueDeletion name loaded
    else (s.forget name).removeStateFiles name
  | none => (s.forget name).removeStateFiles name

def note (s : Supervisor) (event : ModuleEvent) : Supervisor :=
  { s with published := s.published ++ [event] }

def handleEvent (cfg : Config) (s : Supervisor) (event : ModuleEvent) : Supervisor :=
  match event with
  | .activated moduleType name version =>
    if moduleType = cfg.moduleType then s.handleActivated name version else s
  | .deactivated moduleType name =>
    if moduleType = cfg.moduleType then s.handleDeactivated name else s
  | .deleted moduleType name =>
    if moduleType = cfg.moduleType then s.handleDeleted name else s

def nextBackoff (state : Option ModuleBackoffState) (current : Option Nat) :
    ModuleBackoffState :=
  let state := state.getD ⟨1, none, 0⟩
  { delay := if state.lastFailedPosition = current then min (state.delay * 2) 600 else 1
    lastFailedPosition := current
    attempt := state.attempt + 1 }

/-- An actor still in `modules` when it dies has failed. -/
def handleFailure (cfg : Config) (s : Supervisor) (name : String) (loaded : VersionedModule) :
    Supervisor :=
  if cfg.retryOnFailure then
    { s with
      backoff := s.backoff.insert name
        (nextBackoff (s.backoff.lookup name) (s.readLastPosition name))
      restarts := s.restarts ++ [⟨name, loaded.version, loaded.component⟩] }
  else s

def onLinkDied (cfg : Config) (s : Supervisor) (id : Nat) : Supervisor :=
  match s.pending.lookup id with
  | some (name, pending) =>
    spawnModule { s with pending := s.pending.erase id } name pending
  | none =>
    match s.pendingDeletions.lookup id with
    | some name =>
      let s := { s with pendingDeletions := s.pendingDeletions.erase id }
      -- the files belong to a module that took the name since
      if (s.modules.lookup name).isSome then s else s.removeStateFiles name
    | none =>
      match findEntry s.modules fun _ loaded => decide (loaded.actor = id) with
      | some (name, loaded) => s.handleFailure cfg name loaded
      | none => s

def restartModule (s : Supervisor) (message : ModuleCompiled) : Supervisor :=
  if (s.backoff.lookup message.name).isNone then s
  else if (s.modules.lookup message.name).any fun loaded => s.isAlive loaded.actor then s
  else s.spawnModule message.name ⟨message.version, message.component, false⟩

/-- The start of an actor opens the file at its path, or makes one; a change of the
    major version unlinks it and makes another. -/
def startActor (s : Supervisor) (id : Nat) (a : ModuleActor) : Supervisor :=
  let found := (s.stateDb a.name).getD ⟨none, []⟩
  let db := openDatabase [] a.name a.version found
  let kept := if majorChanged found.row a.version then none else s.files a.name
  match kept with
  | some inode => { s with
      inodes := s.inodes.set inode db
      actors := s.actors.modify id fun a =>
        { a with opened := some inode, startedOn := some db } }
  | none => { s with
      files := Function.update s.files a.name (some s.inodes.length)
      inodes := s.inodes ++ [db]
      actors := s.actors.modify id fun a =>
        { a with opened := some s.inodes.length, startedOn := some db } }

def writeState (s : Supervisor) (inode : Nat) (write : Write) : Supervisor :=
  { s with inodes := s.inodes.modify inode fun db => commitWrite db write }

end Supervisor

open Supervisor

def step (cfg : Config) (s : Supervisor) : Action → Option Supervisor
  | .publish event => some (handleEvent cfg (s.note event) event)
  | .compiled index =>
    match s.compiling[index]? with
    | none => none
    | some task => some (loadModule { s with compiling := s.compiling.eraseIdx index }
        task.name task.version task.component)
  | .compileFailed index =>
    match s.compiling[index]? with
    | none => none
    | some _ => some { s with compiling := s.compiling.eraseIdx index }
  -- the module store answers with what is active there
  | .reset name version component => some (s.replaceModule name ⟨version, component, true⟩)
  | .restart index =>
    match s.restarts[index]? with
    | none => none
    | some message =>
      some (restartModule { s with restarts := s.restarts.eraseIdx index } message)
  | .linkDied index =>
    match s.notices[index]? with
    | none => none
    | some id => some (onLinkDied cfg { s with notices := s.notices.eraseIdx index } id)
  | .start id =>
    match s.actors[id]? with
    | none => none
    | some a => if a.alive ∧ a.opened = none then some (s.startActor id a) else none
  | .write id position =>
    match s.actors[id]? with
    | none => none
    | some a =>
      match a.opened with
      | none => none
      | some inode =>
        if a.alive then some (s.writeState inode ⟨s.published.length, position⟩) else none
  | .die id =>
    match s.actors[id]? with
    | none => none
    | some a =>
      if a.alive then
        some { s with
          actors := s.actors.modify id fun a => { a with alive := false }
          notices := s.notices ++ [id] }
      else none

def idle : Supervisor where
  modules := ∅
  pending := ∅
  pendingDeletions := ∅
  backoff := ∅
  actors := []
  compiling := []
  notices := []
  restarts := []
  files := fun _ => none
  inodes := []
  published := []

/-- The supervisor as its start leaves it: every active module that compiled is loaded. -/
def onStart (active : KeyedMap String Version) : Supervisor :=
  active.entries.foldl (fun s entry => s.loadModule entry.1 entry.2 0) idle

/-- The messages that bring a component for a name: a finished compilation, a reset. -/
inductive Loads (s : Supervisor) : Action → Supervisor → String → PendingModule → Prop where
  | compiled (index : Nat) (task : ModuleCompiled) (found : s.compiling[index]? = some task) :
      Loads s (.compiled index) { s with compiling := s.compiling.eraseIdx index } task.name
        ⟨task.version, task.component, false⟩
  | reset (name : String) (version : Version) (component : Nat) :
      Loads s (.reset name version component) s name ⟨version, component, true⟩

def Vacant (s : Supervisor) (name : String) : Prop :=
  ∀ loaded, s.modules.lookup name = some loaded → s.isAlive loaded.actor = false

inductive Moved (cfg : Config) (s : Supervisor) : Action → Supervisor → Prop where
  | foreign (event : ModuleEvent) (other : event.moduleType ≠ cfg.moduleType) :
      Moved cfg s (.publish event) (s.note event)
  | alreadyLoaded (name : String) (version : Version) (current : VersionedModule)
      (found : s.modules.lookup name = some current) (alive : s.isAlive current.actor = true)
      (same : current.version = version) :
      Moved cfg s (.publish (.activated cfg.moduleType name version))
        (s.note (.activated cfg.moduleType name version))
  | compiles (name : String) (version : Version) :
      Moved cfg s (.publish (.activated cfg.moduleType name version))
        ((s.note (.activated cfg.moduleType name version)).compile name version)
  | unloaded (name : String) (loaded : VersionedModule)
      (found : s.modules.lookup name = some loaded) :
      Moved cfg s (.publish (.deactivated cfg.moduleType name))
        (((s.note (.deactivated cfg.moduleType name)).forget name).stopGracefully loaded.actor
          .deactivated)
  | notLoaded (name : String) (none : s.modules.lookup name = none) :
      Moved cfg s (.publish (.deactivated cfg.moduleType name))
        ((s.note (.deactivated cfg.moduleType name)).forget name)
  | deletionQueued (name : String) (loaded : VersionedModule)
      (found : s.modules.lookup name = some loaded) (alive : s.isAlive loaded.actor = true) :
      Moved cfg s (.publish (.deleted cfg.moduleType name))
        (((s.note (.deleted cfg.moduleType name)).forget name).queueDeletion name loaded)
  | deletedNow (name : String) (vacant : Vacant s name) :
      Moved cfg s (.publish (.deleted cfg.moduleType name))
        (((s.note (.deleted cfg.moduleType name)).forget name).removeStateFiles name)
  | swapQueued (a : Action) (base : Supervisor) (name : String) (pending : PendingModule)
      (old : VersionedModule) (loads : Loads s a base name pending)
      (found : s.modules.lookup name = some old) (alive : s.isAlive old.actor = true) :
      Moved cfg s a ((base.forget name).queueSwap name old pending)
  | loaded (a : Action) (base : Supervisor) (name : String) (pending : PendingModule)
      (loads : Loads s a base name pending) (vacant : Vacant s name) :
      Moved cfg s a ((base.forget name).spawnModule name pending)
  | compileFailed (index : Nat) :
      Moved cfg s (.compileFailed index) { s with compiling := s.compiling.eraseIdx index }
  | restartDropped (index : Nat) :
      Moved cfg s (.restart index) { s with restarts := s.restarts.eraseIdx index }
  | restarted (index : Nat) (message : ModuleCompiled) (found : s.restarts[index]? = some message)
      (retried : s.backoff.lookup message.name ≠ none) (vacant : Vacant s message.name) :
      Moved cfg s (.restart index)
        (spawnModule { s with restarts := s.restarts.eraseIdx index } message.name
          ⟨message.version, message.component, false⟩)
  | swapped (index : Nat) (id : Nat) (name : String) (pending : PendingModule)
      (noticed : s.notices[index]? = some id)
      (queued : s.pending.lookup id = some (name, pending)) :
      Moved cfg s (.linkDied index)
        (spawnModule { s with notices := s.notices.eraseIdx index, pending := s.pending.erase id }
          name pending)
  | removalSkipped (index : Nat) (id : Nat) (name : String)
      (noticed : s.notices[index]? = some id) (unqueued : s.pending.lookup id = none)
      (deleting : s.pendingDeletions.lookup id = some name)
      (taken : s.modules.lookup name ≠ none) :
      Moved cfg s (.linkDied index) { s with
        notices := s.notices.eraseIdx index
        pendingDeletions := s.pendingDeletions.erase id }
  | removed (index : Nat) (id : Nat) (name : String)
      (noticed : s.notices[index]? = some id) (unqueued : s.pending.lookup id = none)
      (deleting : s.pendingDeletions.lookup id = some name) (free : s.modules.lookup name = none) :
      Moved cfg s (.linkDied index)
        (removeStateFiles { s with
          notices := s.notices.eraseIdx index
          pendingDeletions := s.pendingDeletions.erase id } name)
  | failed (index : Nat) (id : Nat) (name : String) (loaded : VersionedModule)
      (noticed : s.notices[index]? = some id) (unqueued : s.pending.lookup id = none)
      (found : s.modules.lookup name = some loaded) (same : loaded.actor = id) :
      Moved cfg s (.linkDied index)
        (handleFailure cfg { s with notices := s.notices.eraseIdx index } name loaded)
  | reaped (index : Nat) (id : Nat) (noticed : s.notices[index]? = some id)
      (unqueued : s.pending.lookup id = none) :
      Moved cfg s (.linkDied index) { s with notices := s.notices.eraseIdx index }
  | started (id : Nat) (a : ModuleActor) (found : s.actors[id]? = some a)
      (alive : a.alive = true) (unopened : a.opened = none) :
      Moved cfg s (.start id) (s.startActor id a)
  | wrote (id : Nat) (position : Option Nat) (inode : Nat) :
      Moved cfg s (.write id position) (s.writeState inode ⟨s.published.length, position⟩)
  | died (id : Nat) (a : ModuleActor) (found : s.actors[id]? = some a)
      (alive : a.alive = true) :
      Moved cfg s (.die id) { s with
        actors := s.actors.modify id fun a => { a with alive := false }
        notices := s.notices ++ [id] }

variable {cfg : Config} {s t : Supervisor}

theorem vacant_of_none {name : String} (none : s.modules.lookup name = none) :
    Vacant s name := by
  intro loaded found
  exact absurd (none.symm.trans found) (by simp)

theorem replace_cases (s : Supervisor) (name : String) (pending : PendingModule) :
    (∃ old, s.modules.lookup name = some old ∧ s.isAlive old.actor = true ∧
      s.replaceModule name pending = (s.forget name).queueSwap name old pending) ∨
    (Vacant s name ∧ s.replaceModule name pending = (s.forget name).spawnModule name pending) := by
  unfold replaceModule
  cases found : s.modules.lookup name with
  | none => exact Or.inr ⟨vacant_of_none found, rfl⟩
  | some old =>
    cases alive : s.isAlive old.actor with
    | true => exact Or.inl ⟨old, rfl, alive, if_pos alive⟩
    | false =>
      apply Or.inr
      constructor
      · intro loaded other
        obtain rfl := Option.some.inj (found.symm.trans other)
        exact alive
      · exact if_neg (by rw [alive]; exact Bool.false_ne_true)

theorem moved_of_replace {a : Action} {base : Supervisor} {name : String}
    {pending : PendingModule} (loads : Loads s a base name pending) :
    Moved cfg s a (base.replaceModule name pending) := by
  rcases replace_cases base name pending with ⟨old, found, alive, same⟩ | ⟨vacant, same⟩
  · rw [same]
    cases loads with
    | compiled index task task_found =>
      exact Moved.swapQueued _ _ _ _ old (Loads.compiled index task task_found) found alive
    | reset => exact Moved.swapQueued _ _ _ _ old (Loads.reset _ _ _) found alive
  · rw [same]
    cases loads with
    | compiled index task task_found =>
      exact Moved.loaded _ _ _ _ (Loads.compiled index task task_found) vacant
    | reset => exact Moved.loaded _ _ _ _ (Loads.reset _ _ _) vacant

theorem moved_of_event (event : ModuleEvent) :
    Moved cfg s (.publish event) (handleEvent cfg (s.note event) event) := by
  by_cases own : event.moduleType = cfg.moduleType
  · cases event with
    | activated moduleType name version =>
      obtain rfl : moduleType = cfg.moduleType := own
      simp only [handleEvent, ↓reduceIte, handleActivated]
      cases found : s.modules.lookup name with
      | none =>
        have same : (s.note (.activated cfg.moduleType name version)).modules.lookup name = none :=
          found
        rw [same]
        exact Moved.compiles name version
      | some current =>
        have same : (s.note (.activated cfg.moduleType name version)).modules.lookup name =
            some current := found
        rw [same]
        dsimp only
        split
        · rename_i both
          exact Moved.alreadyLoaded name version current found both.1 both.2
        · exact Moved.compiles name version
    | deactivated moduleType name =>
      obtain rfl : moduleType = cfg.moduleType := own
      simp only [handleEvent, ↓reduceIte, handleDeactivated]
      cases found : s.modules.lookup name with
      | none =>
        have same : (s.note (.deactivated cfg.moduleType name)).modules.lookup name = none := found
        rw [same]
        exact Moved.notLoaded name found
      | some loaded =>
        have same : (s.note (.deactivated cfg.moduleType name)).modules.lookup name =
            some loaded := found
        rw [same]
        exact Moved.unloaded name loaded found
    | deleted moduleType name =>
      obtain rfl : moduleType = cfg.moduleType := own
      simp only [handleEvent, ↓reduceIte, handleDeleted]
      cases found : s.modules.lookup name with
      | none =>
        have same : (s.note (.deleted cfg.moduleType name)).modules.lookup name = none := found
        rw [same]
        exact Moved.deletedNow name (vacant_of_none found)
      | some loaded =>
        have same : (s.note (.deleted cfg.moduleType name)).modules.lookup name =
            some loaded := found
        rw [same]
        dsimp only
        split
        · rename_i alive
          exact Moved.deletionQueued name loaded found alive
        · rename_i dead
          apply Moved.deletedNow name
          intro held other
          obtain rfl := Option.some.inj (found.symm.trans other)
          exact Bool.eq_false_iff.mpr dead
  · have ignored : handleEvent cfg (s.note event) event = s.note event := by
      cases event with
      | activated moduleType name version => exact if_neg own
      | deactivated moduleType name => exact if_neg own
      | deleted moduleType name => exact if_neg own
    rw [ignored]
    exact Moved.foreign event own

theorem moved_of_notice {index : Nat} {id : Nat} (noticed : s.notices[index]? = some id) :
    Moved cfg s (.linkDied index)
      (onLinkDied cfg { s with notices := s.notices.eraseIdx index } id) := by
  unfold onLinkDied
  dsimp only
  cases queued : s.pending.lookup id with
  | some entry => exact Moved.swapped index id entry.1 entry.2 noticed queued
  | none =>
    cases deleting : s.pendingDeletions.lookup id with
    | some name =>
      dsimp only
      cases taken : s.modules.lookup name with
      | none => exact Moved.removed index id name noticed queued deleting taken
      | some loaded =>
        exact Moved.removalSkipped index id name noticed queued deleting (by simp [taken])
    | none =>
      dsimp only
      cases found : findEntry s.modules fun _ loaded => decide (loaded.actor = id) with
      | none => exact Moved.reaped index id noticed queued
      | some entry =>
        obtain ⟨name, loaded⟩ := entry
        obtain ⟨recorded, same⟩ := findEntry_some found
        exact Moved.failed index id name loaded noticed queued recorded (by simpa using same)

theorem moved_of_restart {index : Nat} {message : ModuleCompiled}
    (found : s.restarts[index]? = some message) :
    Moved cfg s (.restart index)
      (restartModule { s with restarts := s.restarts.eraseIdx index } message) := by
  unfold restartModule
  split
  · exact Moved.restartDropped index
  · rename_i retried
    split
    · exact Moved.restartDropped index
    · rename_i vacant
      apply Moved.restarted index message found
      · simpa using retried
      · intro loaded found
        simp only [found, Option.any_some] at vacant
        exact Bool.eq_false_iff.mpr vacant

theorem moved_of_step {a : Action} (taken : step cfg s a = some t) : Moved cfg s a t := by
  cases a with
  | publish event =>
    cases taken
    exact moved_of_event event
  | compiled index =>
    cases found : s.compiling[index]? with
    | none => simp [step, found] at taken
    | some task =>
      simp only [step, found, Option.some.injEq] at taken
      subst taken
      exact moved_of_replace (Loads.compiled index task found)
  | compileFailed index =>
    cases found : s.compiling[index]? with
    | none => simp [step, found] at taken
    | some task =>
      simp only [step, found, Option.some.injEq] at taken
      subst taken
      exact Moved.compileFailed index
  | reset name version component =>
    cases taken
    exact moved_of_replace (Loads.reset name version component)
  | restart index =>
    cases found : s.restarts[index]? with
    | none => simp [step, found] at taken
    | some message =>
      simp only [step, found, Option.some.injEq] at taken
      subst taken
      exact moved_of_restart found
  | linkDied index =>
    cases noticed : s.notices[index]? with
    | none => simp [step, noticed] at taken
    | some id =>
      simp only [step, noticed, Option.some.injEq] at taken
      subst taken
      exact moved_of_notice noticed
  | start id =>
    cases found : s.actors[id]? with
    | none => simp [step, found] at taken
    | some a =>
      simp only [step, found] at taken
      split at taken
      · rename_i both
        obtain rfl := Option.some.inj taken
        exact Moved.started id a found both.1 both.2
      · exact absurd taken (by simp)
  | write id position =>
    cases found : s.actors[id]? with
    | none => simp [step, found] at taken
    | some a =>
      cases opened : a.opened with
      | none => simp [step, found, opened] at taken
      | some inode =>
        simp only [step, found, opened] at taken
        split at taken
        · obtain rfl := Option.some.inj taken
          exact Moved.wrote id position inode
        · exact absurd taken (by simp)
  | die id =>
    cases found : s.actors[id]? with
    | none => simp [step, found] at taken
    | some a =>
      simp only [step, found] at taken
      split at taken
      · rename_i alive
        obtain rfl := Option.some.inj taken
        exact Moved.died id a found alive
      · exact absurd taken (by simp)

/-- The actor of a number, by its name and what it was asked to stop for. -/
def ActorIs (actors : List ModuleActor) (id : Nat) (name : String)
    (asked : Option StopReason) : Prop :=
  ∃ a, actors[id]? = some a ∧ a.name = name ∧ a.asked = asked

/-- What the three registers say about the actors: a module is recorded under the name
    of an actor that nobody has stopped, a swap and a removal wait for one that was
    stopped for it. -/
structure Recorded (modules : KeyedMap String VersionedModule)
    (pending : KeyedMap Nat (String × PendingModule))
    (pendingDeletions : KeyedMap Nat String) (actors : List ModuleActor) : Prop where
  loaded : ∀ name loaded, modules.lookup name = some loaded →
    ActorIs actors loaded.actor name none
  newest : ∀ name loaded, modules.lookup name = some loaded →
    ∀ (i : Nat) a, actors[i]? = some a → a.name = name → i ≤ loaded.actor
  queued : ∀ id name p, pending.lookup id = some (name, p) →
    ActorIs actors id name (some .replaced)
  deleting : ∀ id name, pendingDeletions.lookup id = some name →
    ActorIs actors id name (some .deleted)

section recorded
variable {modules : KeyedMap String VersionedModule}
  {pending : KeyedMap Nat (String × PendingModule)}
  {pendingDeletions : KeyedMap Nat String} {actors : List ModuleActor}

theorem recorded_modify (rec : Recorded modules pending pendingDeletions actors) {id : Nat}
    {f : ModuleActor → ModuleActor} (sameName : ∀ a, (f a).name = a.name)
    (sameAsked : ∀ a, (f a).asked = a.asked) :
    Recorded modules pending pendingDeletions (actors.modify id f) := by
  have moved : ∀ {i : Nat} {name : String} {asked : Option StopReason},
      ActorIs actors i name asked → ActorIs (actors.modify id f) i name asked := by
    intro i name asked held
    obtain ⟨a, found, rfl, rfl⟩ := held
    refine ⟨_, entry_modify.mpr ⟨a, found, rfl⟩, ?_, ?_⟩
    · split
      · exact sameName a
      · rfl
    · split
      · exact sameAsked a
      · rfl
  constructor
  · exact fun name loaded found => moved (rec.loaded name loaded found)
  · intro name loaded found i b here named
    obtain ⟨a, old, rfl⟩ := entry_modify.mp here
    apply rec.newest name loaded found i a old
    split at named
    · exact (sameName a).symm.trans named
    · exact named
  · exact fun i name p found => moved (rec.queued i name p found)
  · exact fun i name found => moved (rec.deleting i name found)

theorem recorded_spawn (rec : Recorded modules pending pendingDeletions actors)
    {x : ModuleActor} (version : Version) (component : Nat) (unasked : x.asked = none) :
    Recorded (modules.insert x.name ⟨version, actors.length, component⟩) pending pendingDeletions
      (actors ++ [x]) := by
  have moved : ∀ {i : Nat} {name : String} {asked : Option StopReason},
      ActorIs actors i name asked → ActorIs (actors ++ [x]) i name asked := by
    intro i name asked held
    obtain ⟨a, found, same⟩ := held
    exact ⟨a, entry_snoc.mpr (Or.inl found), same⟩
  constructor
  · intro name loaded found
    rcases lookup_insert_some.mp found with ⟨rfl, rfl⟩ | ⟨_, old⟩
    · exact ⟨x, entry_snoc.mpr (Or.inr ⟨rfl, rfl⟩), rfl, unasked⟩
    · exact moved (rec.loaded name loaded old)
  · intro name loaded found i a here named
    rcases lookup_insert_some.mp found with ⟨rfl, rfl⟩ | ⟨different, old⟩
    · rcases entry_snoc.mp here with old | ⟨rfl, _⟩
      · exact Nat.le_of_lt (entry_lt old)
      · exact Nat.le_refl _
    · rcases entry_snoc.mp here with older | ⟨_, rfl⟩
      · exact rec.newest name loaded old i a older named
      · exact absurd named.symm different
  · exact fun i name p found => moved (rec.queued i name p found)
  · exact fun i name found => moved (rec.deleting i name found)

theorem recorded_shrink (rec : Recorded modules pending pendingDeletions actors)
    {modules' : KeyedMap String VersionedModule}
    {pending' : KeyedMap Nat (String × PendingModule)}
    {pendingDeletions' : KeyedMap Nat String}
    (fewer : ∀ name loaded, modules'.lookup name = some loaded → modules.lookup name = some loaded)
    (less : ∀ id entry, pending'.lookup id = some entry → pending.lookup id = some entry)
    (rest : ∀ id name, pendingDeletions'.lookup id = some name →
      pendingDeletions.lookup id = some name) :
    Recorded modules' pending' pendingDeletions' actors := by
  constructor
  · exact fun name loaded found => rec.loaded name loaded (fewer name loaded found)
  · exact fun name loaded found => rec.newest name loaded (fewer name loaded found)
  · exact fun id name p found => rec.queued id name p (less id _ found)
  · exact fun id name found => rec.deleting id name (rest id name found)

theorem recorded_stop (rec : Recorded modules pending pendingDeletions actors) {name : String}
    {old : VersionedModule} (found : modules.lookup name = some old) (reason : StopReason) :
    Recorded (modules.erase name) pending pendingDeletions
      (actors.modify old.actor fun a => { a with asked := some reason }) := by
  obtain ⟨a, live, named, unasked⟩ := rec.loaded name old found
  -- every other register entry is about another actor
  have moved : ∀ {i : Nat} {other : String} {asked : Option StopReason},
      (other ≠ name ∨ asked ≠ none) → ActorIs actors i other asked →
      ActorIs (actors.modify old.actor fun a => { a with asked := some reason }) i other asked := by
    intro i other asked different held
    obtain ⟨b, here, rfl, rfl⟩ := held
    refine ⟨b, entry_modify.mpr ⟨b, here, ?_⟩, rfl, rfl⟩
    by_cases same : old.actor = i
    · subst same
      obtain rfl := Option.some.inj (live.symm.trans here)
      exact absurd unasked (different.resolve_left fun other => other named)
    · rw [if_neg same]
  constructor
  · intro other loaded held
    obtain ⟨different, kept⟩ := lookup_erase_some.mp held
    exact moved (Or.inl different) (rec.loaded other loaded kept)
  · intro other loaded held i b here named
    obtain ⟨_, kept⟩ := lookup_erase_some.mp held
    obtain ⟨a, older, rfl⟩ := entry_modify.mp here
    apply rec.newest other loaded kept i a older
    split at named
    · exact named
    · exact named
  · exact fun i other p held => moved (Or.inr (by simp)) (rec.queued i other p held)
  · exact fun i other held => moved (Or.inr (by simp)) (rec.deleting i other held)

theorem stopped_actor (rec : Recorded modules pending pendingDeletions actors) {name : String}
    {old : VersionedModule} (found : modules.lookup name = some old) (reason : StopReason) :
    ActorIs (actors.modify old.actor fun a => { a with asked := some reason }) old.actor name
      (some reason) := by
  obtain ⟨a, live, named, _⟩ := rec.loaded name old found
  exact ⟨_, entry_modify.mpr ⟨a, live, rfl⟩, by simp [named], by simp⟩

end recorded

theorem recorded_unqueued {modules : KeyedMap String VersionedModule}
    {pending : KeyedMap Nat (String × PendingModule)} {pendingDeletions : KeyedMap Nat String}
    {actors : List ModuleActor} (rec : Recorded modules pending pendingDeletions actors)
    {name : String} {loaded : VersionedModule} (found : modules.lookup name = some loaded)
    (entry : String × PendingModule) : pending.lookup loaded.actor ≠ some entry := by
  intro queued
  obtain ⟨a, held, _, unasked⟩ := rec.loaded name loaded found
  obtain ⟨b, same, _, asked⟩ := rec.queued loaded.actor entry.1 entry.2 queued
  obtain rfl := Option.some.inj (held.symm.trans same)
  exact absurd (unasked.symm.trans asked) (by simp)

def Supervisor.Registered (s : Supervisor) : Prop :=
  Recorded s.modules s.pending s.pendingDeletions s.actors

theorem registered_forget (reg : s.Registered) (name : String) : (s.forget name).Registered :=
  recorded_shrink reg (fun _ _ kept => (lookup_erase_some.mp kept).2) (fun _ _ kept => kept)
    (fun _ _ kept => kept)

theorem registered_spawn (reg : s.Registered) (name : String) (pending : PendingModule) :
    (s.spawnModule name pending).Registered :=
  recorded_spawn (x := s.newActor name pending) reg pending.version pending.component rfl

theorem registered_queueSwap (reg : s.Registered) {name : String} {old : VersionedModule}
    (found : s.modules.lookup name = some old) (pending : PendingModule) :
    ((s.forget name).queueSwap name old pending).Registered := by
  have stopped := recorded_stop reg found .replaced
  constructor
  · exact stopped.loaded
  · exact stopped.newest
  · intro id other p held
    rcases lookup_insert_some.mp held with ⟨rfl, same⟩ | ⟨_, kept⟩
    · obtain ⟨rfl, rfl⟩ := Prod.mk.inj same
      exact stopped_actor reg found .replaced
    · exact stopped.queued id other p kept
  · exact stopped.deleting

theorem registered_queueDeletion (reg : s.Registered) {name : String} {loaded : VersionedModule}
    (found : s.modules.lookup name = some loaded) :
    ((s.forget name).queueDeletion name loaded).Registered := by
  have stopped := recorded_stop reg found .deleted
  constructor
  · exact stopped.loaded
  · exact stopped.newest
  · exact stopped.queued
  · intro id other held
    rcases lookup_insert_some.mp held with ⟨rfl, rfl⟩ | ⟨_, kept⟩
    · exact stopped_actor reg found .deleted
    · exact stopped.deleting id other kept

theorem registered_loads {a : Action} {base : Supervisor} {name : String}
    {pending : PendingModule} (loads : Loads s a base name pending) (reg : s.Registered) :
    base.Registered := by
  cases loads with
  | compiled index task found => exact reg
  | reset => exact reg

theorem registered_start (reg : s.Registered) (id : Nat) (a : ModuleActor) :
    (s.startActor id a).Registered := by
  unfold startActor
  dsimp only
  split
  · exact recorded_modify reg (fun _ => rfl) (fun _ => rfl)
  · exact recorded_modify reg (fun _ => rfl) (fun _ => rfl)

theorem registered_step {a : Action} (reg : s.Registered) (taken : step cfg s a = some t) :
    t.Registered := by
  cases moved_of_step taken with
  | foreign => exact reg
  | alreadyLoaded => exact reg
  | compiles => exact reg
  | unloaded name loaded found => exact recorded_stop reg found .deactivated
  | notLoaded name => exact registered_forget reg name
  | deletionQueued name loaded found =>
    exact registered_queueDeletion (s := s.note (.deleted cfg.moduleType name)) reg found
  | deletedNow name => exact registered_forget reg name
  | swapQueued _ base name pending old loads found =>
    apply registered_queueSwap (registered_loads loads reg)
    cases loads <;> exact found
  | loaded _ base name pending loads =>
    exact registered_spawn (registered_forget (registered_loads loads reg) name) name pending
  | compileFailed => exact reg
  | restartDropped => exact reg
  | restarted index message => exact registered_spawn reg message.name _
  | swapped index id name pending =>
    apply registered_spawn
    exact recorded_shrink reg (fun _ _ kept => kept)
      (fun _ _ kept => (lookup_erase_some.mp kept).2) (fun _ _ kept => kept)
  | removalSkipped index id name =>
    exact recorded_shrink reg (fun _ _ kept => kept) (fun _ _ kept => kept)
      (fun _ _ kept => (lookup_erase_some.mp kept).2)
  | removed index id name =>
    exact recorded_shrink reg (fun _ _ kept => kept) (fun _ _ kept => kept)
      (fun _ _ kept => (lookup_erase_some.mp kept).2)
  | failed index id name loaded =>
    unfold handleFailure
    split
    · exact reg
    · exact reg
  | reaped => exact reg
  | started id a => exact registered_start reg id a
  | wrote => exact reg
  | died id a => exact recorded_modify reg (fun _ => rfl) (fun _ => rfl)

def Reported (notices : List Nat) (actors : List ModuleActor) : Prop :=
  ∀ id ∈ notices, ∃ a, actors[id]? = some a ∧ a.alive = false

section reported
variable {notices : List Nat} {actors : List ModuleActor}

theorem reported_modify (reported : Reported notices actors) {k : Nat}
    {f : ModuleActor → ModuleActor} (stays : ∀ a, a.alive = false → (f a).alive = false) :
    Reported notices (actors.modify k f) := by
  intro id member
  obtain ⟨a, found, dead⟩ := reported id member
  refine ⟨_, entry_modify.mpr ⟨a, found, rfl⟩, ?_⟩
  split
  · exact stays a dead
  · exact dead

theorem reported_snoc (reported : Reported notices actors) (x : ModuleActor) :
    Reported notices (actors ++ [x]) := by
  intro id member
  obtain ⟨a, found, dead⟩ := reported id member
  exact ⟨a, entry_snoc.mpr (Or.inl found), dead⟩

theorem reported_eraseIdx (reported : Reported notices actors) (index : Nat) :
    Reported (notices.eraseIdx index) actors :=
  fun id member => reported id (List.mem_of_mem_eraseIdx member)

theorem reported_died (reported : Reported notices actors) {id : Nat} {a : ModuleActor}
    (found : actors[id]? = some a) :
    Reported (notices ++ [id]) (actors.modify id fun a => { a with alive := false }) := by
  intro other member
  rcases List.mem_append.mp member with old | new
  · exact reported_modify reported (fun _ _ => rfl) other old
  · obtain rfl := List.mem_singleton.mp new
    exact ⟨_, entry_modify.mpr ⟨a, found, rfl⟩, by simp⟩

end reported

theorem reported_step {a : Action} (reported : Reported s.notices s.actors)
    (taken : step cfg s a = some t) : Reported t.notices t.actors := by
  cases moved_of_step taken with
  | foreign => exact reported
  | alreadyLoaded => exact reported
  | compiles => exact reported
  | unloaded => exact reported_modify reported (fun _ dead => dead)
  | notLoaded => exact reported
  | deletionQueued => exact reported_modify reported (fun _ dead => dead)
  | deletedNow => exact reported
  | swapQueued _ base name pending old loads =>
    cases loads with
    | compiled => exact reported_modify reported (fun _ dead => dead)
    | reset => exact reported_modify reported (fun _ dead => dead)
  | loaded _ base name pending loads =>
    cases loads with
    | compiled => exact reported_snoc reported _
    | reset => exact reported_snoc reported _
  | compileFailed => exact reported
  | restartDropped => exact reported
  | restarted => exact reported_snoc reported _
  | swapped index => exact reported_snoc (reported_eraseIdx reported index) _
  | removalSkipped index => exact reported_eraseIdx reported index
  | removed index => exact reported_eraseIdx reported index
  | failed index id name loaded =>
    unfold handleFailure
    split
    · exact reported_eraseIdx reported index
    · exact reported_eraseIdx reported index
  | reaped index => exact reported_eraseIdx reported index
  | started id a =>
    unfold startActor
    dsimp only
    split
    · exact reported_modify reported (fun _ dead => dead)
    · exact reported_modify reported (fun _ dead => dead)
  | wrote => exact reported
  | died id a found => exact reported_died reported found

theorem onStart_loads {P : (String → Option Version) → Supervisor → Prop}
    (start : P (fun _ => none) idle)
    (spawned : ∀ loaded s name version, P loaded s → s.modules.lookup name = none →
      P (Function.update loaded name (some version))
        ((s.forget name).spawnModule name ⟨version, 0, false⟩))
    (active : KeyedMap String Version) : P (fun name => active.lookup name) (onStart active) := by
  have general : ∀ entries : List (Sigma fun _ : String => Version), entries.NodupKeys →
      ∀ loaded s, P loaded s → (∀ entry ∈ entries, s.modules.lookup entry.1 = none) →
        P (fun name => (entries.dlookup name).or (loaded name))
          (entries.foldl (fun s entry => s.loadModule entry.1 entry.2 0) s) := by
    intro entries
    induction entries with
    | nil => exact fun _ loaded s held _ => held
    | cons entry rest ih =>
      intro distinct loaded s held free
      obtain ⟨name, version⟩ := entry
      obtain ⟨fresh, tail⟩ := List.nodupKeys_cons.mp distinct
      have here : s.modules.lookup name = none := free ⟨name, version⟩ List.mem_cons_self
      have spawns : s.loadModule name version 0 =
          (s.forget name).spawnModule name ⟨version, 0, false⟩ := by
        unfold loadModule replaceModule
        rw [here]
      have next := ih tail _ _ (spawned loaded s name version held here) (by
        intro other later
        have different : other.1 ≠ name := by
          intro same
          have key : other.1 ∈ rest.keys := List.mem_keys_of_mem later
          exact fresh (same ▸ key)
        have old := free other (List.mem_cons_of_mem _ later)
        show ((s.modules.erase name).insert name _).lookup other.1 = none
        rw [AList.lookup_insert_ne different, AList.lookup_erase_ne different, old])
      have same : (fun other => (List.dlookup other (⟨name, version⟩ :: rest)).or (loaded other)) =
          fun other => (rest.dlookup other).or
            (Function.update loaded name (some version) other) := by
        funext other
        by_cases equal : other = name
        · subst equal
          have absent : rest.dlookup other = none := List.dlookup_eq_none.mpr fresh
          simp [absent]
        · have skip : List.dlookup other (⟨name, version⟩ :: rest) = rest.dlookup other :=
            List.dlookup_cons_ne rest ⟨name, version⟩ equal
          rw [skip, Function.update_of_ne equal]
      rw [List.foldl_cons, spawns, same]
      exact next
  have finished := general active.entries active.nodupKeys _ idle start (fun _ _ => rfl)
  simp only [Option.or_none] at finished
  exact finished

theorem onStart_induction {P : Supervisor → Prop} (start : P idle)
    (spawned : ∀ s name version, P s → s.modules.lookup name = none →
      P ((s.forget name).spawnModule name ⟨version, 0, false⟩))
    (active : KeyedMap String Version) : P (onStart active) :=
  onStart_loads (P := fun _ s => P s) start (fun _ => spawned) active

theorem registered_onStart (active : KeyedMap String Version) : (onStart active).Registered := by
  apply onStart_induction
  · constructor
    · exact fun name loaded found => nomatch found
    · exact fun name loaded found => nomatch found
    · exact fun id name p found => nomatch found
    · exact fun id name found => nomatch found
  · intro s name version reg _
    exact registered_spawn (registered_forget reg name) name _

theorem reported_onStart (active : KeyedMap String Version) :
    Reported (onStart active).notices (onStart active).actors := by
  apply onStart_induction (P := fun s => Reported s.notices s.actors)
  · exact fun id member => absurd member List.not_mem_nil
  · exact fun s name version reported _ => reported_snoc reported _

end UmariModuleSupervisor
