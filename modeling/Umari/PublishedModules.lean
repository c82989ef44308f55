import Mathlib.Data.List.Induction
import Umari.KeyedMaps
import Umari.StoreReferences

/-!
The module store actor: the calls of the store and the events published after them. An
activation reads the bytes back before it is published. A deletion is published when
modules were removed, whether or not one of them was active. Publishing succeeds.
-/
namespace UmariPublishedModules
open GuardedRuns KeyedMaps UniqueTables
open UmariStateDatabases UmariModuleEvents UmariModuleStore UmariStoreReferences

inductive PublishedEvent where
  | activated (moduleType : ModuleType) (name : String) (version : Version)
      (wasmBytes : List UInt8)
  | deactivated (moduleType : ModuleType) (name : String)
  | deleted (moduleType : ModuleType) (name : String)
deriving DecidableEq, Repr

structure ModuleStoreActor where
  store : Store
  published : List PublishedEvent

def start : ModuleStoreActor := ⟨init, []⟩

namespace ModuleStoreActor
variable (s : ModuleStoreActor) (moduleType : ModuleType) (name : String)

def publish (store : Store) (event : PublishedEvent) : ModuleStoreActor :=
  ⟨store, s.published ++ [event]⟩

/-- The bytes are read back by the statement after those of the store. -/
def activateModule (digest : List UInt8 → String) (fails : Failures) (version : Version) :
    ModuleStoreActor × Except ModuleStoreError Unit :=
  match UmariModuleStore.activateModule s.store fails moduleType name version with
  | (store, .error err) => ({ s with store := store }, .error err)
  | (store, .ok false) => ({ s with store := store }, .ok ())
  | (store, .ok true) =>
    match loadModule digest store moduleType name version (fails 4) with
    | .error err => ({ s with store := store }, .error err)
    | .ok none => ({ s with store := store }, .error (.moduleNotFound moduleType name version))
    | .ok (some (wasmBytes, _)) =>
      (s.publish store (.activated moduleType name version wasmBytes), .ok ())

def handleDeactivateModule (failed : Bool) : ModuleStoreActor × Except ModuleStoreError Unit :=
  match deactivateModule s.store moduleType name failed with
  | (store, .error err) => ({ s with store := store }, .error err)
  | (store, .ok false) => ({ s with store := store }, .ok ())
  | (store, .ok true) => (s.publish store (.deactivated moduleType name), .ok ())

def handleDeleteModule (fails : Failures) : ModuleStoreActor × Except ModuleStoreError Bool :=
  match deleteModule s.store fails moduleType name with
  | (store, .error err) => ({ s with store := store }, .error err)
  | (store, .ok false) => ({ s with store := store }, .ok false)
  | (store, .ok true) => (s.publish store (.deleted moduleType name), .ok true)

end ModuleStoreActor

def ReadsBack : Operation → Prop
  | .activateModule fails _ _ _ => fails 4 = false
  | _ => True

def step (digest : List UInt8 → String) (s : ModuleStoreActor) (message : Operation) :
    Option ModuleStoreActor :=
  match message with
  | .activateModule fails moduleType name version =>
    some (s.activateModule moduleType name digest fails version).1
  | .deactivateModule failed moduleType name =>
    some (s.handleDeactivateModule moduleType name failed).1
  | .deleteModule fails moduleType name => some (s.handleDeleteModule moduleType name fails).1
  | message => some { s with store := call digest s.store message }

abbrev ActiveMap := KeyedMap (ModuleType × String) (Version × List UInt8)

def apply (active : ActiveMap) : PublishedEvent → ActiveMap
  | .activated moduleType name version wasmBytes =>
    active.insert (moduleType, name) (version, wasmBytes)
  | .deactivated moduleType name => active.erase (moduleType, name)
  | .deleted moduleType name => active.erase (moduleType, name)

def replay (events : List PublishedEvent) : ActiveMap := events.foldl apply ∅

/-- The replayed map holds what `get_all_active_modules` returns, which has every type and
    name once. -/
structure Mirrors (s : ModuleStoreActor) : Prop where
  same : ∀ moduleType name version wasmBytes,
    (replay s.published).lookup (moduleType, name) = some (version, wasmBytes) ↔
      ∃ m ∈ getAllActiveModules s.store none, m.moduleType = moduleType ∧ m.name = name ∧
        m.version = version ∧ m.wasmBytes = wasmBytes
  once : (getAllActiveModules s.store none).Pairwise fun a b =>
    ¬ (a.moduleType = b.moduleType ∧ a.name = b.name)

section joins
variable {store : Store}

theorem mem_joined {pair : ActiveRow × ModuleRow} : pair ∈ joined store ↔
    pair.1 ∈ store.activeModules ∧ pair.2 ∈ store.modules ∧ pair.1.moduleId = pair.2.id := by
  unfold joined
  rw [List.mem_flatMap]
  constructor
  · intro found
    obtain ⟨a, active, listed⟩ := found
    obtain ⟨m, member, rfl⟩ := List.mem_map.mp listed
    obtain ⟨there, refers⟩ := List.mem_filter.mp member
    exact ⟨active, there, of_decide_eq_true refers⟩
  · intro refers
    obtain ⟨active, there, id⟩ := refers
    refine ⟨pair.1, active, List.mem_map.mpr ⟨pair.2, ?_, rfl⟩⟩
    exact List.mem_filter.mpr ⟨there, decide_eq_true id⟩

def Active (store : Store) (moduleType : ModuleType) (name : String)
    (value : Version × List UInt8) : Prop :=
  ∃ a ∈ store.activeModules, ∃ m ∈ store.modules, a.moduleId = m.id ∧
    a.moduleType = moduleType ∧ a.name = name ∧ (m.version, m.wasmBytes) = value

theorem active_listed {moduleType : ModuleType} {name : String} {version : Version}
    {wasmBytes : List UInt8} :
    Active store moduleType name (version, wasmBytes) ↔
      ∃ m ∈ getAllActiveModules store none, m.moduleType = moduleType ∧ m.name = name ∧
        m.version = version ∧ m.wasmBytes = wasmBytes := by
  unfold getAllActiveModules
  constructor
  · intro active
    obtain ⟨a, live, m, there, id, rfl, rfl, same⟩ := active
    obtain ⟨rfl, rfl⟩ := Prod.mk.inj same
    refine ⟨_, List.mem_map.mpr ⟨(a, m), ?_, rfl⟩, rfl, rfl, rfl, rfl⟩
    exact List.mem_filter.mpr ⟨mem_joined.mpr ⟨live, there, id⟩, rfl⟩
  · intro listed
    obtain ⟨_, member, rfl, rfl, rfl, rfl⟩ := listed
    obtain ⟨⟨a, m⟩, found, rfl⟩ := List.mem_map.mp member
    obtain ⟨live, there, id⟩ := mem_joined.mp (List.mem_filter.mp found).1
    exact ⟨a, live, m, there, id, rfl, rfl, rfl⟩

theorem active_once (store : Store) : (getAllActiveModules store none).Pairwise fun a b =>
    ¬ (a.moduleType = b.moduleType ∧ a.name = b.name) := by
  unfold getAllActiveModules
  apply List.pairwise_map.mpr
  apply List.Pairwise.filter
  unfold joined
  apply List.pairwise_flatMap.mpr
  constructor
  · intro a _
    apply List.pairwise_map.mpr
    -- an id names one module, so a row is joined with one module at most
    apply (store.modules.unique.filter fun m => decide (a.moduleId = m.id)).imp_of_mem
    intro m other member also apart _
    have left := of_decide_eq_true (List.mem_filter.mp member).2
    have right := of_decide_eq_true (List.mem_filter.mp also).2
    exact apart (Or.inl (left.symm.trans right))
  · apply store.activeModules.unique.imp
    intro a b apart x left y right same
    obtain ⟨_, _, rfl⟩ := List.mem_map.mp left
    obtain ⟨_, _, rfl⟩ := List.mem_map.mp right
    exact apart same

end joins

section messages
variable {digest : List UInt8 → String} {store : Store} {s t : ModuleStoreActor}
  {moduleType : ModuleType} {name : String} {version : Version}

/-- The digest of every module is that of its bytes. -/
def Intact (digest : List UInt8 → String) (store : Store) : Prop :=
  ∀ m ∈ store.modules, m.sha256 = digest m.wasmBytes

def Replays (store : Store) (events : List PublishedEvent) : Prop :=
  ∀ moduleType name value,
    (replay events).lookup (moduleType, name) = some value ↔ Active store moduleType name value

structure Inv (digest : List UInt8 → String) (s : ModuleStoreActor) : Prop where
  referenced : Referenced s.store
  intact : Intact digest s.store
  replayed : Replays s.store s.published

theorem replay_publish (events : List PublishedEvent) (event : PublishedEvent) :
    replay (events ++ [event]) = apply (replay events) event := by
  rw [replay, replay, List.foldl_append]
  rfl

theorem active_saved {modules : Table ModuleRow.Clash} {settings : Table EnvVarRow.Clash}
    {row : ModuleRow} (referenced : Referenced store)
    (inserted : store.modules.insert row = some modules) {value : Version × List UInt8} :
    Active { store with modules := modules, envVars := settings } moduleType name value ↔
      Active store moduleType name value := by
  obtain ⟨members, free⟩ := Table.insert_some inserted
  constructor
  · intro active
    obtain ⟨a, live, m, there, id, same⟩ := active
    rcases (members m).mp there with old | rfl
    · exact ⟨a, live, m, old, id, same⟩
    · obtain ⟨owner, present, own, _⟩ := referenced.refers a live
      exact absurd (Or.inl (own.trans id)) (free owner present)
  · intro active
    obtain ⟨a, live, m, there, id, same⟩ := active
    exact ⟨a, live, m, (members m).mpr (Or.inl there), id, same⟩

theorem active_activated {m : ModuleRow}
    (found : store.modules.find (ModuleRow.isVersion moduleType name version) = some m)
    {otherType : ModuleType} {otherName : String} {value : Version × List UInt8} :
    Active { store with activeModules := store.activeModules.replace ⟨moduleType, name, m.id⟩ }
        otherType otherName value ↔
      ((otherType, otherName) = (moduleType, name) ∧ (version, m.wasmBytes) = value) ∨
      ((otherType, otherName) ≠ (moduleType, name) ∧ Active store otherType otherName value) := by
  obtain ⟨there, passes⟩ := Table.find_some found
  obtain ⟨_, _, rfl⟩ := isVersion_iff.mp passes
  constructor
  · intro active
    obtain ⟨a, live, other, listed, id, rfl, rfl, rfl⟩ := active
    rcases Table.mem_replace.mp live with old | rfl
    · refine Or.inr ⟨?_, a, old.1, other, listed, id, rfl, rfl, rfl⟩
      intro same
      exact old.2 (Prod.mk.inj same)
    · obtain rfl := module_unique there listed id
      exact Or.inl ⟨rfl, rfl⟩
  · intro either
    rcases either with ⟨own, rfl⟩ | ⟨other, a, live, row, listed, id, rfl, rfl, rfl⟩
    · obtain ⟨rfl, rfl⟩ := Prod.mk.inj own
      exact ⟨_, Table.mem_replace.mpr (Or.inr rfl), m, there, rfl, rfl, rfl, rfl⟩
    · refine ⟨a, Table.mem_replace.mpr (Or.inl ⟨live, ?_⟩), row, listed, id, rfl, rfl, rfl⟩
      intro clash
      exact other (Prod.ext clash.1 clash.2)

theorem active_deactivated {otherType : ModuleType} {otherName : String}
    {value : Version × List UInt8} :
    Active { store with
        activeModules := store.activeModules.delete (ActiveRow.isNamed moduleType name) }
        otherType otherName value ↔
      (otherType, otherName) ≠ (moduleType, name) ∧ Active store otherType otherName value := by
  constructor
  · intro active
    obtain ⟨a, live, m, there, id, rfl, rfl, rfl⟩ := active
    obtain ⟨old, other⟩ := Table.mem_delete.mp live
    refine ⟨?_, a, old, m, there, id, rfl, rfl, rfl⟩
    intro same
    rw [isNamed_iff.mpr (Prod.mk.inj same)] at other
    exact absurd other (by simp)
  · intro both
    obtain ⟨other, a, live, m, there, id, rfl, rfl, rfl⟩ := both
    refine ⟨a, Table.mem_delete.mpr ⟨live, ?_⟩, m, there, id, rfl, rfl, rfl⟩
    apply Bool.eq_false_iff.mpr
    intro named
    obtain ⟨ty, same⟩ := isNamed_iff.mp named
    exact other (Prod.ext ty same)

theorem active_deleted {settings : Table EnvVarRow.Clash} (referenced : Referenced store)
    {otherType : ModuleType} {otherName : String} {value : Version × List UInt8} :
    Active { store with
        modules := store.modules.delete (ModuleRow.isNamed moduleType name)
        activeModules := store.activeModules.delete (ActiveRow.isNamed moduleType name)
        envVars := settings } otherType otherName value ↔
      (otherType, otherName) ≠ (moduleType, name) ∧ Active store otherType otherName value := by
  rw [← active_deactivated]
  constructor
  · intro active
    obtain ⟨a, live, m, there, same⟩ := active
    exact ⟨a, live, m, (Table.mem_delete.mp there).1, same⟩
  · intro active
    obtain ⟨a, live, m, there, id, same⟩ := active
    refine ⟨a, live, m, Table.mem_delete.mpr ⟨there, ?_⟩, id, same⟩
    obtain ⟨old, other⟩ := Table.mem_delete.mp live
    obtain ⟨owner, present, own, ty, named⟩ := referenced.refers a old
    obtain rfl := module_unique present there (own.trans id)
    rw [ModuleRow.isNamed, ty, named]
    exact other

theorem active_deletedVersion {m : ModuleRow}
    (idle : store.activeModules.find (fun a => decide (a.moduleId = m.id)) = none)
    {value : Version × List UInt8} :
    Active { store with modules := store.modules.delete fun other => decide (other.id = m.id) }
        moduleType name value ↔ Active store moduleType name value := by
  constructor
  · intro active
    obtain ⟨a, live, other, there, same⟩ := active
    exact ⟨a, live, other, (Table.mem_delete.mp there).1, same⟩
  · intro active
    obtain ⟨a, live, other, there, id, same⟩ := active
    refine ⟨a, live, other, Table.mem_delete.mpr ⟨there, ?_⟩, id, same⟩
    rw [← id]
    exact Table.find_none.mp idle a live

theorem intact_changed {other : Store} (intact : Intact digest store)
    (changed : Changed digest store other) : Intact digest other := by
  cases changed with
  | same modules _ =>
    intro m member
    rw [modules] at member
    exact intact m member
  | saved inserted =>
    intro m member
    rcases ((Table.insert_some inserted).1 m).mp member with old | rfl
    · exact intact m old
    · rfl
  | activated _ => exact intact
  | deactivated _ _ => exact intact
  | deletedVersion _ => exact fun m member => intact m (Table.mem_delete.mp member).1
  | deleted _ _ _ => exact fun m member => intact m (Table.mem_delete.mp member).1

theorem activateModule_cases (intact : Intact digest s.store) {fails : Failures}
    (readsBack : fails 4 = false) :
    (∃ err, s.activateModule moduleType name digest fails version = (s, .error err)) ∨
    ∃ m, s.store.modules.find (ModuleRow.isVersion moduleType name version) = some m ∧
      s.activateModule moduleType name digest fails version =
        (s.publish
          { s.store with
            activeModules := s.store.activeModules.replace ⟨moduleType, name, m.id⟩ }
          (.activated moduleType name version m.wasmBytes), .ok ()) := by
  unfold ModuleStoreActor.activateModule
  rcases UmariModuleStore.activateModule_cases s.store with ⟨err, failed⟩ | ⟨m, found, activated⟩
  · rw [failed]
    exact Or.inl ⟨err, rfl⟩
  · have whole := intact m (Table.find_some found).1
    have loaded : loadModule digest { s.store with
        activeModules := s.store.activeModules.replace ⟨moduleType, name, m.id⟩ } moduleType name
        version (fails 4) = .ok (some (m.wasmBytes, m.sha256)) := by
      rw [readsBack]
      exact loadModule_whole _ found whole
    rw [activated]
    dsimp only
    rw [loaded]
    exact Or.inr ⟨m, found, rfl⟩

theorem handleDeactivateModule_cases {failed : Bool} :
    (∃ err, s.handleDeactivateModule moduleType name failed = (s, .error err)) ∨
    s.handleDeactivateModule moduleType name failed =
      ({ store := { s.store with
          activeModules := s.store.activeModules.delete (ActiveRow.isNamed moduleType name) }
         published :=
          if 0 < s.store.activeModules.count (ActiveRow.isNamed moduleType name) then
            s.published ++ [.deactivated moduleType name]
          else s.published }, .ok ()) := by
  unfold ModuleStoreActor.handleDeactivateModule
  rcases deactivateModule_cases s.store with ⟨err, failed⟩ | deactivated
  · rw [failed]
    exact Or.inl ⟨err, rfl⟩
  · rw [deactivated]
    by_cases some : 0 < s.store.activeModules.count (ActiveRow.isNamed moduleType name)
    · simp [some, ModuleStoreActor.publish]
    · simp [some]

theorem handleDeleteModule_cases {fails : Failures} :
    (∃ err, s.handleDeleteModule moduleType name fails = (s, .error err)) ∨
    ∃ settings reply, s.handleDeleteModule moduleType name fails =
      ({ store := { s.store with
          modules := s.store.modules.delete (ModuleRow.isNamed moduleType name)
          activeModules := s.store.activeModules.delete (ActiveRow.isNamed moduleType name)
          envVars := settings }
         published :=
          if 0 < s.store.modules.count (ModuleRow.isNamed moduleType name) then
            s.published ++ [.deleted moduleType name]
          else s.published }, reply) := by
  unfold ModuleStoreActor.handleDeleteModule
  rcases deleteModule_cases s.store with ⟨err, failed⟩ | ⟨settings, deleted⟩
  · rw [failed]
    exact Or.inl ⟨err, rfl⟩
  · rw [deleted]
    by_cases some : 0 < s.store.modules.count (ModuleRow.isNamed moduleType name)
    · exact Or.inr ⟨settings, .ok true, by simp [some, ModuleStoreActor.publish]⟩
    · exact Or.inr ⟨settings, .ok false, by simp [some]⟩

theorem step_store {message : Operation}
    (taken : step digest s message = some t) : t.store = call digest s.store message := by
  cases message with
  | activateModule fails moduleType name version =>
    cases taken
    rw [call, ModuleStoreActor.activateModule]
    split
    · rename_i done
      rw [done]
    · rename_i done
      rw [done]
    · rename_i done
      rw [done]
      split
      · rfl
      · rfl
      · rfl
  | deactivateModule failed moduleType name =>
    cases taken
    rw [call, ModuleStoreActor.handleDeactivateModule]
    split
    · rename_i done
      rw [done]
    · rename_i done
      rw [done]
    · rename_i done
      rw [done]
      rfl
  | deleteModule fails moduleType name =>
    cases taken
    rw [call, ModuleStoreActor.handleDeleteModule]
    split
    · rename_i done
      rw [done]
    · rename_i done
      rw [done]
    · rename_i done
      rw [done]
      rfl
  | saveModule fails moduleType name version id envVars wasmBytes =>
    cases taken
    rfl
  | deleteModuleVersion fails moduleType name version =>
    cases taken
    rfl
  | setEnvVar failed moduleType name key value =>
    cases taken
    rfl
  | deleteEnvVar failed moduleType name key =>
    cases taken
    rfl
  | createCryptoKey fails scope fresh =>
    cases taken
    rfl
  | deleteCryptoKey failed scope now =>
    cases taken
    rfl
  | read =>
    cases taken
    rfl

theorem replays_erased (inv : Inv digest s) {store : Store} {event : PublishedEvent}
    (erases : ∀ active, apply active event = active.erase (moduleType, name))
    (gone : ∀ otherType otherName value, Active store otherType otherName value ↔
      (otherType, otherName) ≠ (moduleType, name) ∧ Active s.store otherType otherName value) :
    Replays store (s.published ++ [event]) := by
  intro otherType otherName value
  rw [replay_publish, erases, lookup_erase_some, gone, inv.replayed]

theorem replays_absent (inv : Inv digest s) {store : Store}
    (absent : ∀ value, ¬ Active s.store moduleType name value)
    (gone : ∀ otherType otherName value, Active store otherType otherName value ↔
      (otherType, otherName) ≠ (moduleType, name) ∧ Active s.store otherType otherName value) :
    Replays store s.published := by
  intro otherType otherName value
  rw [inv.replayed, gone]
  constructor
  · intro active
    refine ⟨?_, active⟩
    intro same
    obtain ⟨rfl, rfl⟩ := Prod.mk.inj same
    exact absent value active
  · exact And.right

section replays
variable {fails : Failures}

theorem replays_activate (inv : Inv digest s) (readsBack : fails 4 = false)
    {after : ModuleStoreActor × Except ModuleStoreError Unit}
    (done : s.activateModule moduleType name digest fails version = after) :
    Replays after.1.store after.1.published := by
  rcases activateModule_cases inv.intact readsBack with ⟨err, failed⟩ | ⟨m, found, activated⟩
  · rw [← done, failed]
    exact inv.replayed
  · rw [← done, activated]
    intro otherType otherName value
    rw [ModuleStoreActor.publish, replay_publish, apply, lookup_insert_some,
      active_activated found, inv.replayed]

theorem replays_deactivate (inv : Inv digest s) {failed : Bool}
    {after : ModuleStoreActor × Except ModuleStoreError Unit}
    (done : s.handleDeactivateModule moduleType name failed = after) :
    Replays after.1.store after.1.published := by
  rcases handleDeactivateModule_cases with ⟨err, failed⟩ | deactivated
  · rw [← done, failed]
    exact inv.replayed
  · rw [← done, deactivated]
    by_cases live : 0 < s.store.activeModules.count (ActiveRow.isNamed moduleType name)
    · rw [if_pos live]
      exact replays_erased inv (fun _ => rfl) fun _ _ _ => active_deactivated
    · rw [if_neg live]
      apply replays_absent inv _ fun _ _ _ => active_deactivated
      intro value active
      obtain ⟨a, there, _, _, _, ty, same, _⟩ := active
      exact live (Table.count_pos.mpr ⟨a, there, isNamed_iff.mpr ⟨ty, same⟩⟩)

theorem replays_delete (inv : Inv digest s)
    {after : ModuleStoreActor × Except ModuleStoreError Bool}
    (done : s.handleDeleteModule moduleType name fails = after) :
    Replays after.1.store after.1.published := by
  rcases handleDeleteModule_cases with ⟨err, failed⟩ | ⟨settings, reply, deleted⟩
  · rw [← done, failed]
    exact inv.replayed
  · rw [← done, deleted]
    by_cases stored : 0 < s.store.modules.count (ModuleRow.isNamed moduleType name)
    · rw [if_pos stored]
      exact replays_erased inv (fun _ => rfl) fun _ _ _ => active_deleted inv.referenced
    · rw [if_neg stored]
      apply replays_absent inv _ fun _ _ _ => active_deleted inv.referenced
      intro value active
      obtain ⟨a, live, _, _, _, rfl, rfl, _⟩ := active
      obtain ⟨owner, present, _, ty, named⟩ := inv.referenced.refers a live
      exact stored (Table.count_pos.mpr ⟨owner, present, moduleNamed_iff.mpr ⟨ty, named⟩⟩)

theorem replays_step (inv : Inv digest s) {message : Operation} (readsBack : ReadsBack message)
    (taken : step digest s message = some t) : Replays t.store t.published := by
  cases message with
  | activateModule fails moduleType name version =>
    cases taken
    exact replays_activate inv readsBack rfl
  | deactivateModule failed moduleType name =>
    cases taken
    exact replays_deactivate inv rfl
  | deleteModule fails moduleType name =>
    cases taken
    exact replays_delete inv rfl
  | saveModule fails moduleType name version id envVars wasmBytes =>
    cases taken
    dsimp only [call]
    rcases saveModule_cases s.store with ⟨_, _, failed⟩ | ⟨modules, settings, inserted, saved⟩
    · rw [failed]
      exact inv.replayed
    · rw [saved]
      intro otherType otherName value
      rw [active_saved inv.referenced inserted]
      exact inv.replayed otherType otherName value
  | deleteModuleVersion fails moduleType name version =>
    cases taken
    dsimp only [call]
    rcases deleteModuleVersion_cases s.store with kept | ⟨m, _, idle, deleted⟩
    · rw [kept]
      exact inv.replayed
    · rw [deleted]
      intro otherType otherName value
      rw [active_deletedVersion idle]
      exact inv.replayed otherType otherName value
  | setEnvVar failed moduleType name key value =>
    cases taken
    obtain ⟨settings, set⟩ := setEnvVar_cases s.store
    dsimp only [call]
    rw [set]
    exact inv.replayed
  | deleteEnvVar failed moduleType name key =>
    cases taken
    obtain ⟨settings, deleted⟩ := deleteEnvVar_cases s.store
    dsimp only [call]
    rw [deleted]
    exact inv.replayed
  | createCryptoKey fails scope fresh =>
    cases taken
    exact inv.replayed
  | deleteCryptoKey failed scope now =>
    cases taken
    exact inv.replayed
  | read =>
    cases taken
    exact inv.replayed

end replays

theorem inv_step (inv : Inv digest s) {message : Operation} (readsBack : ReadsBack message)
    (taken : step digest s message = some t) : Inv digest t := by
  have called := step_store taken
  constructor
  · rw [called]
    exact (safe_step inv.referenced rfl).1
  · rw [called]
    exact intact_changed inv.intact (call_changed digest s.store message)
  · exact replays_step inv readsBack taken

theorem mirrors_of_inv (inv : Inv digest s) : Mirrors s where
  same := by
    intro moduleType name version wasmBytes
    rw [inv.replayed]
    exact active_listed
  once := active_once s.store

theorem inv_start (digest : List UInt8 → String) : Inv digest start where
  referenced := referenced_init
  intact := fun _ member => absurd member Table.not_mem_empty
  replayed := by
    intro moduleType name value
    constructor
    · intro found
      exact absurd found (by simp [start, replay])
    · intro active
      obtain ⟨a, live, _⟩ := active
      exact absurd live Table.not_mem_empty

/-- After every message, the replayed events give the active modules of the store. -/
theorem published_mirror_active (digest : List UInt8 → String) (messages : List Operation)
    (readsBack : ∀ message ∈ messages, ReadsBack message) :
    Always (step digest) Mirrors start messages := by
  have met : Meets (step digest) (fun _ message => ReadsBack message) start messages :=
    meets_of_mem (fun _ => readsBack) _
  exact always_of_meets (P := Mirrors) (fun inv reads taken => inv_step inv reads taken)
    mirrors_of_inv (inv_start digest) met

def usersMessages : List Operation :=
  [.saveModule .never .projector "users" (release 1 0 0) 1 [] [0],
    .activateModule .never .projector "users" (release 1 0 0),
    .deleteModule .never .projector "users"]

def shown (s : ModuleStoreActor) :
    List PublishedEvent × Option (Version × List UInt8) × List Module :=
  (s.published, (replay s.published).lookup (.projector, "users"),
    getAllActiveModules s.store none)

/-- The replayed map holds the version once it is activated, and nothing once it is deleted. -/
theorem mirrored_through_deletion :
    Always (step fun _ => "hash") Mirrors start usersMessages ∧
    (exec (step fun _ => "hash") start (usersMessages.take 2)).map shown =
      some ([.activated .projector "users" (release 1 0 0) [0]], some (release 1 0 0, [0]),
        [⟨.projector, "users", release 1 0 0, "hash", [0]⟩]) ∧
    (exec (step fun _ => "hash") start usersMessages).map shown =
      some ([.activated .projector "users" (release 1 0 0) [0], .deleted .projector "users"],
        none, []) := by
  refine ⟨published_mirror_active _ _ fun message member => ?_, by decide +kernel,
    by decide +kernel⟩
  simp only [usersMessages, List.mem_cons, List.not_mem_nil, or_false] at member
  rcases member with rfl | rfl | rfl
  · trivial
  · rfl
  · trivial

end messages

section supervisors

/-- The event without the bytes, as the supervisors' model has it. -/
def PublishedEvent.plain : PublishedEvent → ModuleEvent
  | .activated moduleType name version _ => .activated moduleType name version
  | .deactivated moduleType name => .deactivated moduleType name
  | .deleted moduleType name => .deleted moduleType name

theorem intended_replay (events : List PublishedEvent) (moduleType : ModuleType) (name : String) :
    intended moduleType name none (events.map PublishedEvent.plain) =
      ((replay events).lookup (moduleType, name)).map Prod.fst := by
  induction events using List.reverseRecOn with
  | nil => rfl
  | append_singleton before event ih =>
    rw [List.map_append, List.map_singleton, intended_snoc, replay_publish]
    by_cases own : concerns moduleType name event.plain = true
    · rw [if_pos own]
      obtain ⟨ty, same⟩ := concerns_iff.mp own
      cases event with
      | activated otherType otherName version wasmBytes =>
        obtain rfl : otherType = moduleType := ty
        obtain rfl : otherName = name := same
        simp [apply, PublishedEvent.plain, ModuleEvent.version]
      | deactivated otherType otherName =>
        obtain rfl : otherType = moduleType := ty
        obtain rfl : otherName = name := same
        simp [apply, PublishedEvent.plain, ModuleEvent.version]
      | deleted otherType otherName =>
        obtain rfl : otherType = moduleType := ty
        obtain rfl : otherName = name := same
        simp [apply, PublishedEvent.plain, ModuleEvent.version]
    · rw [if_neg own, ih]
      congr 1
      have other : ∀ otherType otherName, event.plain.moduleType = otherType →
          event.plain.name = otherName → (moduleType, name) ≠ (otherType, otherName) := by
        intro otherType otherName ty same equal
        obtain ⟨rfl, rfl⟩ := Prod.mk.inj equal
        exact own (concerns_iff.mpr ⟨ty, same⟩)
      cases event with
      | activated otherType otherName version wasmBytes =>
        exact (AList.lookup_insert_ne (other otherType otherName rfl rfl)).symm
      | deactivated otherType otherName =>
        exact (AList.lookup_erase_ne (other otherType otherName rfl rfl)).symm
      | deleted otherType otherName =>
        exact (AList.lookup_erase_ne (other otherType otherName rfl rfl)).symm

end supervisors
end UmariPublishedModules
