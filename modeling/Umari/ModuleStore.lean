import Umari.FallibleFolds
import Umari.ModuleEvents
import Umari.StoredEvents
import Umari.UniqueTables

/-!
The module store: its tables with the constraints of the schema, and the operations on
them statement by statement. Whether a statement of a call fails is up to the
environment, which also picks the rowid of a new module, any integer that no row has, and
what is random or taken from the clock. There is no foreign key. The bytes of modules are
hashed by `digest`.
-/
namespace UmariModuleStore
open FallibleFolds UniqueTables UmariStateDatabases UmariModuleEvents UmariStoredEvents

inductive ModuleStoreError where
  | database (message : String)
  | integrity (message : String)
  | invalidName (name : String)
  | invalidCryptoKey (scope : String)
  | moduleAlreadyExists
  | moduleExistsWithSameHash
  | moduleNotFound (moduleType : ModuleType) (name : String) (version : Version)
  | cannotDeleteActiveVersion (moduleType : ModuleType) (name : String) (version : Version)
  | modulePubSubSendError
deriving DecidableEq, Repr

section rows

structure ModuleRow where
  id : Int
  moduleType : ModuleType
  name : String
  version : Version
  wasmBytes : List UInt8
  sha256 : String
deriving DecidableEq, Repr

/-- The primary key and `UNIQUE(module_type, name, version)`. -/
def ModuleRow.Clash (a b : ModuleRow) : Prop :=
  a.id = b.id ∨ (a.moduleType = b.moduleType ∧ a.name = b.name ∧ a.version = b.version)

structure ActiveRow where
  moduleType : ModuleType
  name : String
  moduleId : Int
deriving DecidableEq, Repr

def ActiveRow.Clash (a b : ActiveRow) : Prop := a.moduleType = b.moduleType ∧ a.name = b.name

structure EnvVarRow where
  moduleType : ModuleType
  name : String
  key : String
  value : String
deriving DecidableEq, Repr

def EnvVarRow.Clash (a b : EnvVarRow) : Prop :=
  a.moduleType = b.moduleType ∧ a.name = b.name ∧ a.key = b.key

/-- A key is 32 bytes long; the column is NULL once the key is deleted. -/
structure KeyRow where
  id : Uuid
  scope : String
  key : Option CryptoKey
  deletedAt : Option Int
deriving DecidableEq, Repr

def KeyRow.live (row : KeyRow) : Bool := row.deletedAt.isNone

/-- The primary key, and `crypto_keys_active_scope` among the rows that are not deleted. -/
def KeyRow.Clash (a b : KeyRow) : Prop :=
  a.id = b.id ∨ (a.live = true ∧ b.live = true ∧ a.scope = b.scope)

instance : DecidableRel ModuleRow.Clash := fun a b => by
  unfold ModuleRow.Clash
  infer_instance

instance : DecidableRel ActiveRow.Clash := fun a b => by
  unfold ActiveRow.Clash
  infer_instance

instance : DecidableRel EnvVarRow.Clash := fun a b => by
  unfold EnvVarRow.Clash
  infer_instance

instance : DecidableRel KeyRow.Clash := fun a b => by
  unfold KeyRow.Clash
  infer_instance

instance : Std.Symm ModuleRow.Clash :=
  ⟨fun _ _ clash => clash.imp Eq.symm fun same => ⟨same.1.symm, same.2.1.symm, same.2.2.symm⟩⟩

instance : Std.Symm ActiveRow.Clash := ⟨fun _ _ clash => ⟨clash.1.symm, clash.2.symm⟩⟩

instance : Std.Symm EnvVarRow.Clash :=
  ⟨fun _ _ clash => ⟨clash.1.symm, clash.2.1.symm, clash.2.2.symm⟩⟩

instance : Std.Symm KeyRow.Clash :=
  ⟨fun _ _ clash => clash.imp Eq.symm fun same => ⟨same.2.1, same.1, same.2.2.symm⟩⟩

end rows

abbrev KeyTable := Table KeyRow.Clash

structure Store where
  modules : Table ModuleRow.Clash
  activeModules : Table ActiveRow.Clash
  envVars : Table EnvVarRow.Clash
  cryptoKeys : KeyTable

/-- Every table has the rows it had. -/
structure SameRows (s t : Store) : Prop where
  modules : t.modules = s.modules
  activeModules : ∀ row, row ∈ t.activeModules ↔ row ∈ s.activeModules
  envVars : ∀ row, row ∈ t.envVars ↔ row ∈ s.envVars
  cryptoKeys : t.cryptoKeys = s.cryptoKeys

theorem SameRows.refl (s : Store) : SameRows s s := ⟨rfl, fun _ => Iff.rfl, fun _ => Iff.rfl, rfl⟩

def init : Store := ⟨Table.empty, Table.empty, Table.empty, Table.empty⟩

structure Module where
  moduleType : ModuleType
  name : String
  version : Version
  sha256 : String
  wasmBytes : List UInt8
deriving DecidableEq, Repr

def isValidModuleName (name : String) : Bool :=
  decide (name ≠ "") && name.toList.all fun c => c.isLower || c.isDigit || c == '-'

def diskError : ModuleStoreError := .database "disk I/O error"

def constraintError : ModuleStoreError := .database "constraint failed"

def noTransactionError : ModuleStoreError :=
  .database "cannot rollback - no transaction is active"

/-- Which statements of a call fail, and which of these failures roll the transaction back,
    as that of a full disk does. The statements are numbered from zero, `BEGIN` and `COMMIT`
    included. -/
structure Failures where
  fails : Nat → Bool
  undoes : Nat → Bool

namespace Failures

instance : CoeFun Failures fun _ => Nat → Bool := ⟨Failures.fails⟩

def never : Failures := ⟨fun _ => false, fun _ => false⟩

theorem never_fails (n : Nat) : never n = false := rfl

end Failures

section conditions
variable (moduleType : ModuleType) (name : String)

def ModuleRow.isVersion (version : Version) (m : ModuleRow) : Bool :=
  decide (m.moduleType = moduleType) && decide (m.name = name) && decide (m.version = version)

def ModuleRow.isNamed (m : ModuleRow) : Bool :=
  decide (m.moduleType = moduleType) && decide (m.name = name)

def ActiveRow.isNamed (a : ActiveRow) : Bool :=
  decide (a.moduleType = moduleType) && decide (a.name = name)

def EnvVarRow.isNamed (e : EnvVarRow) : Bool :=
  decide (e.moduleType = moduleType) && decide (e.name = name)

end conditions

section operations
variable (digest : List UInt8 → String) (store : Store) (fails : Failures)
  (moduleType : ModuleType) (name : String) (version : Version)

/-- The table after the writes up to the first that fails, and how the loop ends. -/
def writeEnvVars : Nat → List (String × String) → Table EnvVarRow.Clash →
    Table EnvVarRow.Clash × Except ModuleStoreError Unit
  | _, [], table => (table, .ok ())
  | n, entry :: rest, table =>
    if fails n then (table, .error diskError)
    else writeEnvVars (n + 1) rest (table.replace ⟨moduleType, name, entry.1, entry.2⟩)

/-- The insert of the module may fail and the variables are written all the same. -/
def saveModule (id : Int) (envVars : List (String × String)) (wasmBytes : List UInt8) :
    Store × Except ModuleStoreError Unit :=
  if isValidModuleName name = false then (store, .error (.invalidName name))
  else if fails 0 then (store, .error diskError)
  else
    let sha256 := digest wasmBytes
    let result := store.modules.insert ⟨id, moduleType, name, version, wasmBytes, sha256⟩
    let (settings, written) := writeEnvVars fails moduleType name 4 envVars store.envVars
    if fails 1 && fails.undoes 1 then
      -- no transaction is left: each variable was stored for good, and `ROLLBACK` fails
      ({ store with envVars := settings }, written.bind fun _ => .error noTransactionError)
    else
      transaction store do
        written
        if fails 1 then .error diskError
        else
          match result with
          | some modules =>
            attempt (fails 2) diskError
              (.ok ({ store with modules := modules, envVars := settings }, ()))
          | none =>
            let existing :=
              if fails 3 then none
              else (store.modules.find (ModuleRow.isVersion moduleType name version)).map (·.sha256)
            if fails 3 && fails.undoes 3 then .error noTransactionError
            else if fails 2 then .error diskError
            else if existing = some sha256 then .error .moduleExistsWithSameHash
            else .error .moduleAlreadyExists

def loadModule (failed : Bool) : Except ModuleStoreError (Option (List UInt8 × String)) := do
  let row ← attempt failed diskError
    (.ok (store.modules.find (ModuleRow.isVersion moduleType name version)))
  match row with
  | none => .ok none
  | some m =>
    if m.sha256 = digest m.wasmBytes then .ok (some (m.wasmBytes, m.sha256))
    else .error (.integrity
      ("sha256 mismatch: expected " ++ digest m.wasmBytes ++ ", got " ++ m.sha256))

/-- Every error of the lookup is reported as a missing module. -/
def activateModule : Store × Except ModuleStoreError Bool :=
  transaction store do
    attempt (fails 0) diskError (.ok ())
    let row ← attempt (fails 1) (.moduleNotFound moduleType name version)
      (.ok (store.modules.find (ModuleRow.isVersion moduleType name version)))
    match row with
    | none => .error (.moduleNotFound moduleType name version)
    | some m =>
      -- on a conflict the row takes the new `module_id`, its only other column
      let active ← attempt (fails 2) diskError
        (.ok (store.activeModules.replace ⟨moduleType, name, m.id⟩))
      attempt (fails 3) diskError (.ok ({ store with activeModules := active }, true))

def deactivateModule (failed : Bool) : Store × Except ModuleStoreError Bool :=
  transaction store (attempt failed diskError (.ok
    ({ store with activeModules := store.activeModules.delete (ActiveRow.isNamed moduleType name) },
      decide (0 < store.activeModules.count (ActiveRow.isNamed moduleType name)))))

def deleteModuleVersion : Store × Except ModuleStoreError Bool :=
  transaction store do
    attempt (fails 0) diskError (.ok ())
    let row ← attempt (fails 1) diskError
      (.ok (store.modules.find (ModuleRow.isVersion moduleType name version)))
    match row with
    | none => .ok (store, false)
    | some m =>
      let active ← attempt (fails 2) diskError
        (.ok (store.activeModules.find fun a => decide (a.moduleId = m.id)))
      if active.isSome then .error (.cannotDeleteActiveVersion moduleType name version)
      else
        let isRow := fun other : ModuleRow => decide (other.id = m.id)
        let modules ← attempt (fails 3) diskError (.ok (store.modules.delete isRow))
        attempt (fails 4) diskError
          (.ok ({ store with modules := modules }, decide (0 < store.modules.count isRow)))

def deleteModule : Store × Except ModuleStoreError Bool :=
  transaction store do
    attempt (fails 0) diskError (.ok ())
    let active ← attempt (fails 1) diskError
      (.ok (store.activeModules.delete (ActiveRow.isNamed moduleType name)))
    let envVars ← attempt (fails 2) diskError
      (.ok (store.envVars.delete (EnvVarRow.isNamed moduleType name)))
    let modules ← attempt (fails 3) diskError
      (.ok (store.modules.delete (ModuleRow.isNamed moduleType name)))
    attempt (fails 4) diskError
      (.ok ({ store with modules := modules, activeModules := active, envVars := envVars },
        decide (0 < store.modules.count (ModuleRow.isNamed moduleType name))))

/-- `active_modules a JOIN modules m ON a.module_id = m.id` -/
def joined : List (ActiveRow × ModuleRow) :=
  store.activeModules.rows.flatMap fun a =>
    (store.modules.rows.filter fun m => decide (a.moduleId = m.id)).map fun m => (a, m)

def getActiveModule : Option (Version × List UInt8) :=
  ((joined store).find? fun pair => pair.1.isNamed moduleType name).map fun pair =>
    (pair.2.version, pair.2.wasmBytes)

def getAllActiveModules (moduleType : Option ModuleType) : List Module :=
  ((joined store).filter fun pair => moduleType.all fun ty => decide (pair.1.moduleType = ty)).map
    fun pair => ⟨pair.1.moduleType, pair.1.name, pair.2.version, pair.2.sha256, pair.2.wasmBytes⟩

def setEnvVar (failed : Bool) (key value : String) : Store × Except ModuleStoreError Unit :=
  transaction store (attempt failed diskError
    (.ok ({ store with envVars := store.envVars.replace ⟨moduleType, name, key, value⟩ }, ())))

def deleteEnvVar (failed : Bool) (key : String) : Store × Except ModuleStoreError Bool :=
  let isRow := fun e : EnvVarRow => e.isNamed moduleType name && decide (e.key = key)
  transaction store (attempt failed diskError
    (.ok ({ store with envVars := store.envVars.delete isRow },
      decide (0 < store.envVars.count isRow))))

end operations

section keys
variable (keys : KeyTable)

def KeyRow.isScope (scope : String) (row : KeyRow) : Bool :=
  decide (row.scope = scope) && row.live

def KeyRow.isId (id : Uuid) (row : KeyRow) : Bool := decide (row.id = id) && row.live

/-- A NULL where a key should be is an error of the conversion. -/
def keyColumn (row : KeyRow) : Except ModuleStoreError CryptoKey :=
  match row.key with
  | some key => .ok key
  | none => .error (.database "invalid column type Null at index: 1, name: key")

def getCryptoKey (failed : Bool) (scope : String) :
    Except ModuleStoreError (Option (Uuid × CryptoKey)) := do
  match ← attempt failed diskError (.ok (keys.find (KeyRow.isScope scope))) with
  | none => .ok none
  | some row => (keyColumn row).map fun key => some (row.id, key)

def getCryptoKeyById (failed : Bool) (id : Uuid) :
    Except ModuleStoreError (Option CryptoKey) := do
  match ← attempt failed diskError (.ok (keys.find (KeyRow.isId id))) with
  | none => .ok none
  | some row => (keyColumn row).map some

/-- `fresh` is the random identifier with the random key. -/
def createCryptoKey (fails : Failures) (scope : String) (fresh : Uuid × CryptoKey) :
    KeyTable × Except ModuleStoreError (Uuid × CryptoKey) :=
  transaction keys do
    match ← getCryptoKey keys (fails 0) scope with
    | some made => .ok (keys, made)
    | none =>
      match ← attempt (fails 1) diskError
          (.ok (keys.insert ⟨fresh.1, scope, some fresh.2, none⟩)) with
      | some keys => .ok (keys, fresh)
      | none => .error constraintError

def deleteCryptoKey (failed : Bool) (scope : String) (now : Int) :
    KeyTable × Except ModuleStoreError Unit :=
  transaction keys do
    match ← attempt failed diskError (.ok (keys.update (KeyRow.isScope scope) fun row =>
        { row with key := none, deletedAt := some now })) with
    | some keys => .ok (keys, ())
    | none => .error constraintError

end keys

section results
variable {digest : List UInt8 → String} (store : Store) {fails : Failures} {failed : Bool}
  {moduleType : ModuleType} {name : String} {version : Version}

theorem isVersion_iff {m : ModuleRow} : m.isVersion moduleType name version = true ↔
    m.moduleType = moduleType ∧ m.name = name ∧ m.version = version := by
  simp [ModuleRow.isVersion, and_assoc]

theorem isNamed_iff {a : ActiveRow} : a.isNamed moduleType name = true ↔
    a.moduleType = moduleType ∧ a.name = name := by simp [ActiveRow.isNamed]

theorem moduleNamed_iff {m : ModuleRow} : m.isNamed moduleType name = true ↔
    m.moduleType = moduleType ∧ m.name = name := by simp [ModuleRow.isNamed]

theorem loadModule_whole {m : ModuleRow}
    (found : store.modules.find (ModuleRow.isVersion moduleType name version) = some m)
    (whole : m.sha256 = digest m.wasmBytes) :
    loadModule digest store moduleType name version false = .ok (some (m.wasmBytes, m.sha256)) := by
  rw [loadModule, found]
  exact if_pos whole

theorem saveModule_cases {id : Int} {envVars : List (String × String)} {wasmBytes : List UInt8} :
    (∃ settings err, saveModule digest store fails moduleType name version id envVars wasmBytes =
      ({ store with envVars := settings }, .error err)) ∨
    ∃ modules settings,
      store.modules.insert ⟨id, moduleType, name, version, wasmBytes, digest wasmBytes⟩ =
        some modules ∧
      saveModule digest store fails moduleType name version id envVars wasmBytes =
        ({ store with modules := modules, envVars := settings }, .ok ()) := by
  unfold saveModule
  by_cases invalid : isValidModuleName name = false
  · rw [if_pos invalid]
    exact Or.inl ⟨store.envVars, _, rfl⟩
  rw [if_neg invalid]
  by_cases unbegun : fails 0 = true
  · rw [if_pos unbegun]
    exact Or.inl ⟨store.envVars, _, rfl⟩
  rw [if_neg unbegun]
  dsimp only
  generalize writeEnvVars fails moduleType name 4 envVars store.envVars = loop
  obtain ⟨settings, written⟩ := loop
  dsimp only
  by_cases lost : (fails 1 && fails.undoes 1) = true
  · rw [if_pos lost]
    cases written with
    | error err => exact Or.inl ⟨settings, err, rfl⟩
    | ok => exact Or.inl ⟨settings, _, rfl⟩
  rw [if_neg lost]
  dsimp only [transaction]
  split
  · rename_i t a body
    obtain ⟨_, _, rest⟩ := do_ok.mp body
    by_cases broken : fails 1 = true
    · rw [if_pos broken] at rest
      exact absurd rest (by simp)
    rw [if_neg broken] at rest
    split at rest
    · rename_i modules inserted
      obtain ⟨_, same⟩ := attempt_ok.mp rest
      obtain ⟨rfl, rfl⟩ := Prod.mk.inj (Except.ok.inj same)
      exact Or.inr ⟨modules, settings, inserted, rfl⟩
    · generalize (if fails 3 = true then none else _ : Option String) = existing at rest
      split_ifs at rest
  · exact Or.inl ⟨store.envVars, _, rfl⟩

theorem activateModule_cases :
    (∃ err, activateModule store fails moduleType name version = (store, .error err)) ∨
    ∃ m, store.modules.find (ModuleRow.isVersion moduleType name version) = some m ∧
      activateModule store fails moduleType name version =
        ({ store with activeModules := store.activeModules.replace ⟨moduleType, name, m.id⟩ },
          .ok true) := by
  unfold activateModule transaction
  split
  · rename_i t a body
    simp only [do_ok, attempt_ok] at body
    obtain ⟨_, _, row, ⟨_, found⟩, rest⟩ := body
    obtain rfl := Except.ok.inj found
    split at rest
    · exact absurd rest (by simp)
    · rename_i m here
      simp only [do_ok, attempt_ok] at rest
      obtain ⟨active, ⟨_, set⟩, _, same⟩ := rest
      obtain rfl := Except.ok.inj set
      obtain ⟨rfl, rfl⟩ := Prod.mk.inj (Except.ok.inj same)
      exact Or.inr ⟨m, here, rfl⟩
  · exact Or.inl ⟨_, rfl⟩

theorem deactivateModule_cases :
    (∃ err, deactivateModule store moduleType name failed = (store, .error err)) ∨
    deactivateModule store moduleType name failed =
      ({ store with
        activeModules := store.activeModules.delete (ActiveRow.isNamed moduleType name) },
        .ok (decide (0 < store.activeModules.count (ActiveRow.isNamed moduleType name)))) := by
  unfold deactivateModule transaction
  split
  · rename_i t a body
    obtain ⟨_, same⟩ := attempt_ok.mp body
    obtain ⟨rfl, rfl⟩ := Prod.mk.inj (Except.ok.inj same)
    exact Or.inr rfl
  · exact Or.inl ⟨_, rfl⟩

theorem deleteModuleVersion_cases :
    ((deleteModuleVersion store fails moduleType name version).1 = store) ∨
    ∃ m, store.modules.find (ModuleRow.isVersion moduleType name version) = some m ∧
      store.activeModules.find (fun a => decide (a.moduleId = m.id)) = none ∧
      (deleteModuleVersion store fails moduleType name version).1 =
        { store with modules := store.modules.delete fun other => decide (other.id = m.id) } := by
  unfold deleteModuleVersion transaction
  split
  · rename_i t a body
    simp only [do_ok, attempt_ok] at body
    obtain ⟨_, _, row, ⟨_, found⟩, rest⟩ := body
    obtain rfl := Except.ok.inj found
    split at rest
    · obtain ⟨rfl, rfl⟩ := Prod.mk.inj (Except.ok.inj rest)
      exact Or.inl rfl
    · rename_i m here
      simp only [do_ok, attempt_ok] at rest
      obtain ⟨active, ⟨_, looked⟩, rest⟩ := rest
      obtain rfl := Except.ok.inj looked
      split at rest
      · exact absurd rest (by simp)
      · rename_i idle
        simp only [do_ok, attempt_ok] at rest
        obtain ⟨modules, ⟨_, removed⟩, _, same⟩ := rest
        obtain rfl := Except.ok.inj removed
        obtain ⟨rfl, rfl⟩ := Prod.mk.inj (Except.ok.inj same)
        exact Or.inr ⟨m, here, by simpa using idle, rfl⟩
  · exact Or.inl rfl

theorem deleteModule_cases :
    (∃ err, deleteModule store fails moduleType name = (store, .error err)) ∨
    ∃ settings, deleteModule store fails moduleType name =
      ({ store with
        modules := store.modules.delete (ModuleRow.isNamed moduleType name)
        activeModules := store.activeModules.delete (ActiveRow.isNamed moduleType name)
        envVars := settings },
        .ok (decide (0 < store.modules.count (ModuleRow.isNamed moduleType name)))) := by
  unfold deleteModule transaction
  split
  · rename_i t a body
    simp only [do_ok, attempt_ok] at body
    obtain ⟨_, _, active, ⟨_, idle⟩, settings, _, modules, ⟨_, gone⟩, _, same⟩ := body
    obtain rfl := Except.ok.inj idle
    obtain rfl := Except.ok.inj gone
    obtain ⟨rfl, rfl⟩ := Prod.mk.inj (Except.ok.inj same)
    exact Or.inr ⟨settings, rfl⟩
  · exact Or.inl ⟨_, rfl⟩

theorem setEnvVar_cases {key value : String} :
    ∃ settings, (setEnvVar store moduleType name failed key value).1 =
      { store with envVars := settings } := by
  unfold setEnvVar transaction
  split
  · rename_i t a done
    obtain ⟨_, same⟩ := attempt_ok.mp done
    obtain ⟨rfl, _⟩ := Prod.mk.inj (Except.ok.inj same)
    exact ⟨_, rfl⟩
  · exact ⟨store.envVars, rfl⟩

theorem deleteEnvVar_cases {key : String} :
    ∃ settings, (deleteEnvVar store moduleType name failed key).1 =
      { store with envVars := settings } := by
  unfold deleteEnvVar
  dsimp only [transaction]
  split
  · rename_i t a done
    obtain ⟨_, same⟩ := attempt_ok.mp done
    obtain ⟨rfl, _⟩ := Prod.mk.inj (Except.ok.inj same)
    exact ⟨_, rfl⟩
  · exact ⟨store.envVars, rfl⟩

end results
end UmariModuleStore
