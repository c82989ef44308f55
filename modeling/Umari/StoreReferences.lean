import Umari.GuardedRuns
import Umari.ModuleStore

/-!
What active rows refer to. No constraint of the schema ties `active_modules` to
`modules`, and the rowid of a deleted module may be given to another one. A row is
activated only with the id of the module found under its own type and name, and a module
is deleted only while no active row has its id, or along with the active row of its name.
-/
namespace UmariStoreReferences
open GuardedRuns UniqueTables
open UmariStateDatabases UmariModuleEvents UmariStoredEvents UmariModuleStore

/-- The calls of the module store, each with what the environment decides for it. The
    others only read. -/
inductive Operation where
  | saveModule (fails : Failures) (moduleType : ModuleType) (name : String) (version : Version)
      (id : Int) (envVars : List (String × String)) (wasmBytes : List UInt8)
  | activateModule (fails : Failures) (moduleType : ModuleType) (name : String)
      (version : Version)
  | deactivateModule (failed : Bool) (moduleType : ModuleType) (name : String)
  | deleteModuleVersion (fails : Failures) (moduleType : ModuleType) (name : String)
      (version : Version)
  | deleteModule (fails : Failures) (moduleType : ModuleType) (name : String)
  | setEnvVar (failed : Bool) (moduleType : ModuleType) (name key value : String)
  | deleteEnvVar (failed : Bool) (moduleType : ModuleType) (name key : String)
  | createCryptoKey (fails : Failures) (scope : String) (fresh : Uuid × CryptoKey)
  | deleteCryptoKey (failed : Bool) (scope : String) (now : Int)
  | read

def call (digest : List UInt8 → String) (s : Store) : Operation → Store
  | .saveModule fails moduleType name version id envVars wasmBytes =>
    (saveModule digest s fails moduleType name version id envVars wasmBytes).1
  | .activateModule fails moduleType name version =>
    (activateModule s fails moduleType name version).1
  | .deactivateModule failed moduleType name => (deactivateModule s moduleType name failed).1
  | .deleteModuleVersion fails moduleType name version =>
    (deleteModuleVersion s fails moduleType name version).1
  | .deleteModule fails moduleType name => (deleteModule s fails moduleType name).1
  | .setEnvVar failed moduleType name key value =>
    (setEnvVar s moduleType name failed key value).1
  | .deleteEnvVar failed moduleType name key => (deleteEnvVar s moduleType name failed key).1
  | .createCryptoKey fails scope fresh =>
    { s with cryptoKeys := (createCryptoKey s.cryptoKeys fails scope fresh).1 }
  | .deleteCryptoKey failed scope now =>
    { s with cryptoKeys := (deleteCryptoKey s.cryptoKeys failed scope now).1 }
  | .read => s

def step (digest : List UInt8 → String) (s : Store) (operation : Operation) : Option Store :=
  some (call digest s operation)

/-- Every active row has its module, and there is one active row for a type and name. -/
structure Referenced (s : Store) : Prop where
  refers : ∀ a ∈ s.activeModules, ∃ m ∈ s.modules,
    m.id = a.moduleId ∧ m.moduleType = a.moduleType ∧ m.name = a.name
  single : ∀ a ∈ s.activeModules, ∀ b ∈ s.activeModules,
    a.moduleType = b.moduleType → a.name = b.name → a = b

/-- A module that is active is not removed, unless its active row is as well. -/
def KeepsActive (s t : Store) : Prop :=
  ∀ m ∈ s.modules, ∀ a ∈ s.activeModules, a.moduleId = m.id →
    m ∈ t.modules ∨ a ∉ t.activeModules

section operations
variable {digest : List UInt8 → String} {s t : Store}

theorem single_active (s : Store) : ∀ a ∈ s.activeModules, ∀ b ∈ s.activeModules,
    a.moduleType = b.moduleType → a.name = b.name → a = b :=
  fun _ left _ right ty name => Table.eq_of_clash left right ⟨ty, name⟩

theorem module_unique {m other : ModuleRow} (left : m ∈ s.modules) (right : other ∈ s.modules)
    (same : m.id = other.id) : m = other := Table.eq_of_clash left right (Or.inl same)

/-- What a call leaves: the references hold, and no active module lost its row. -/
def Safe (s t : Store) : Prop := Referenced t ∧ KeepsActive s t

inductive Changed (digest : List UInt8 → String) (s : Store) : Store → Prop where
  | same {t : Store} (modules : t.modules = s.modules)
      (active : t.activeModules = s.activeModules) : Changed digest s t
  | saved {modules : Table ModuleRow.Clash} {settings : Table EnvVarRow.Clash} {id : Int}
      {moduleType : ModuleType} {name : String} {version : Version} {wasmBytes : List UInt8}
      (inserted : s.modules.insert ⟨id, moduleType, name, version, wasmBytes, digest wasmBytes⟩ =
        some modules) :
      Changed digest s { s with modules := modules, envVars := settings }
  | activated {moduleType : ModuleType} {name : String} {version : Version} {m : ModuleRow}
      (found : s.modules.find (ModuleRow.isVersion moduleType name version) = some m) :
      Changed digest s
        { s with activeModules := s.activeModules.replace ⟨moduleType, name, m.id⟩ }
  | deactivated (moduleType : ModuleType) (name : String) :
      Changed digest s { s with
        activeModules := s.activeModules.delete (ActiveRow.isNamed moduleType name) }
  | deletedVersion {m : ModuleRow}
      (idle : s.activeModules.find (fun a => decide (a.moduleId = m.id)) = none) :
      Changed digest s
        { s with modules := s.modules.delete fun other => decide (other.id = m.id) }
  | deleted (moduleType : ModuleType) (name : String) (settings : Table EnvVarRow.Clash) :
      Changed digest s { s with
        modules := s.modules.delete (ModuleRow.isNamed moduleType name)
        activeModules := s.activeModules.delete (ActiveRow.isNamed moduleType name)
        envVars := settings }

theorem call_changed (digest : List UInt8 → String) (s : Store) (operation : Operation) :
    Changed digest s (call digest s operation) := by
  have same : Changed digest s s := Changed.same rfl rfl
  cases operation with
  | saveModule fails moduleType name version id envVars wasmBytes =>
    rw [call]
    rcases saveModule_cases s with ⟨_, _, failed⟩ | ⟨modules, settings, inserted, saved⟩
    · rw [failed]
      exact Changed.same rfl rfl
    · rw [saved]
      exact Changed.saved inserted
  | activateModule fails moduleType name version =>
    rw [call]
    rcases activateModule_cases s with ⟨err, failed⟩ | ⟨m, found, activated⟩
    · rw [failed]
      exact same
    · rw [activated]
      exact Changed.activated found
  | deactivateModule failed moduleType name =>
    rw [call]
    rcases deactivateModule_cases s with ⟨err, failed⟩ | deactivated
    · rw [failed]
      exact same
    · rw [deactivated]
      exact Changed.deactivated moduleType name
  | deleteModuleVersion fails moduleType name version =>
    rw [call]
    rcases deleteModuleVersion_cases s with kept | ⟨m, _, idle, deleted⟩
    · rw [kept]
      exact same
    · rw [deleted]
      exact Changed.deletedVersion idle
  | deleteModule fails moduleType name =>
    rw [call]
    rcases deleteModule_cases s with ⟨err, failed⟩ | ⟨settings, deleted⟩
    · rw [failed]
      exact same
    · rw [deleted]
      exact Changed.deleted moduleType name settings
  | setEnvVar failed moduleType name key value =>
    obtain ⟨settings, set⟩ := setEnvVar_cases s
    rw [call, set]
    exact Changed.same rfl rfl
  | deleteEnvVar failed moduleType name key =>
    obtain ⟨settings, deleted⟩ := deleteEnvVar_cases s
    rw [call, deleted]
    exact Changed.same rfl rfl
  | createCryptoKey fails scope fresh => exact Changed.same rfl rfl
  | deleteCryptoKey failed scope now => exact Changed.same rfl rfl
  | read => exact same

theorem safe_same (referenced : Referenced s) (modules : t.modules = s.modules)
    (active : t.activeModules = s.activeModules) : Safe s t := by
  obtain ⟨refers, single⟩ := referenced
  constructor
  · constructor
    · rw [modules, active]
      exact refers
    · rw [active]
      exact single
  · intro m member _ _ _
    rw [modules]
    exact Or.inl member

theorem safe_saved {modules : Table ModuleRow.Clash} {settings : Table EnvVarRow.Clash}
    {row : ModuleRow} (referenced : Referenced s)
    (inserted : s.modules.insert row = some modules) :
    Safe s { s with modules := modules, envVars := settings } := by
  obtain ⟨members, _⟩ := Table.insert_some inserted
  constructor
  · constructor
    · intro a member
      obtain ⟨m, there, same⟩ := referenced.refers a member
      exact ⟨m, (members m).mpr (Or.inl there), same⟩
    · exact referenced.single
  · exact fun m member _ _ _ => Or.inl ((members m).mpr (Or.inl member))

theorem safe_activated {moduleType : ModuleType} {name : String} {version : Version}
    {m : ModuleRow} (referenced : Referenced s)
    (found : s.modules.find (ModuleRow.isVersion moduleType name version) = some m) :
    Safe s { s with activeModules := s.activeModules.replace ⟨moduleType, name, m.id⟩ } := by
  obtain ⟨there, passes⟩ := Table.find_some found
  obtain ⟨ty, named, _⟩ := isVersion_iff.mp passes
  constructor
  · constructor
    · intro a member
      rcases Table.mem_replace.mp member with old | rfl
      · exact referenced.refers a old.1
      · exact ⟨m, there, rfl, ty, named⟩
    · exact single_active _
  · exact fun m member _ _ _ => Or.inl member

theorem safe_deactivated {moduleType : ModuleType} {name : String} (referenced : Referenced s) :
    Safe s { s with
      activeModules := s.activeModules.delete (ActiveRow.isNamed moduleType name) } := by
  constructor
  · constructor
    · exact fun a member => referenced.refers a (Table.mem_delete.mp member).1
    · exact single_active _
  · exact fun m member _ _ _ => Or.inl member

theorem safe_deletedVersion {m : ModuleRow} (referenced : Referenced s)
    (idle : s.activeModules.find (fun a => decide (a.moduleId = m.id)) = none) :
    Safe s { s with modules := s.modules.delete fun other => decide (other.id = m.id) } := by
  have inactive : ∀ a ∈ s.activeModules, a.moduleId ≠ m.id := by
    intro a member
    simpa using Table.find_none.mp idle a member
  constructor
  · constructor
    · intro a member
      obtain ⟨other, there, id, same⟩ := referenced.refers a member
      refine ⟨other, Table.mem_delete.mpr ⟨there, ?_⟩, id, same⟩
      rw [id]
      simpa using inactive a member
    · exact referenced.single
  · intro other there a member active
    apply Or.inl
    apply Table.mem_delete.mpr
    refine ⟨there, ?_⟩
    rw [← active]
    simpa using inactive a member

theorem safe_deleted {moduleType : ModuleType} {name : String} {settings : Table EnvVarRow.Clash}
    (referenced : Referenced s) :
    Safe s { s with
      modules := s.modules.delete (ModuleRow.isNamed moduleType name)
      activeModules := s.activeModules.delete (ActiveRow.isNamed moduleType name)
      envVars := settings } := by
  constructor
  · constructor
    · intro a member
      obtain ⟨before, other⟩ := Table.mem_delete.mp member
      obtain ⟨m, there, id, ty, named⟩ := referenced.refers a before
      refine ⟨m, Table.mem_delete.mpr ⟨there, ?_⟩, id, ty, named⟩
      rw [ModuleRow.isNamed, ty, named]
      exact other
    · exact single_active _
  · intro m there a member active
    by_cases gone : m.isNamed moduleType name = true
    · apply Or.inr
      intro kept
      obtain ⟨_, other⟩ := Table.mem_delete.mp kept
      obtain ⟨owner, present, id, ty, named⟩ := referenced.refers a member
      obtain rfl := module_unique present there (id.trans active)
      rw [ActiveRow.isNamed, ← ty, ← named] at other
      exact absurd (gone.symm.trans other) (by simp)
    · exact Or.inl (Table.mem_delete.mpr ⟨there, Bool.eq_false_iff.mpr gone⟩)

theorem safe_changed (referenced : Referenced s) (changed : Changed digest s t) : Safe s t := by
  cases changed with
  | same modules active => exact safe_same referenced modules active
  | saved inserted => exact safe_saved referenced inserted
  | activated found => exact safe_activated referenced found
  | deactivated moduleType name => exact safe_deactivated referenced
  | deletedVersion idle => exact safe_deletedVersion referenced idle
  | deleted moduleType name settings => exact safe_deleted referenced

theorem safe_step {operation : Operation} (referenced : Referenced s)
    (taken : step digest s operation = some t) : Safe s t := by
  obtain rfl := Option.some.inj taken
  exact safe_changed referenced (call_changed digest s operation)

end operations

theorem referenced_init : Referenced init where
  refers := fun _ member => absurd member Table.not_mem_empty
  single := fun _ member => absurd member Table.not_mem_empty

/-- After every sequence of calls, failed ones included, the active rows refer to their
    modules, and the next call keeps every module that stays active. -/
theorem always_referenced (digest : List UInt8 → String) (operations : List Operation) :
    Always (step digest) (fun s => Referenced s ∧
      ∀ operation t, step digest s operation = some t → KeepsActive s t) init operations := by
  have met : Meets (step digest) (fun _ _ => True) init operations :=
    meets_of_mem (fun _ _ _ => trivial) _
  apply always_of_meets _ _ referenced_init met
  · exact fun referenced _ taken => (safe_step referenced taken).1
  · exact fun referenced => ⟨referenced, fun _ _ taken => (safe_step referenced taken).2⟩

end UmariStoreReferences
