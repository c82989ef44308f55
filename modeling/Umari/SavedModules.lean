import Umari.ModuleStore

/-!
What one `save_module` does. The variables are written before the result of the insert is
looked at, and every error, also that of a version that is stored already, is meant to end
with a rollback. But where the failure of the insert has rolled the transaction back
already, the variables that follow it are stored by themselves. The lookup that tells the
two duplicate errors apart counts its own failure as a different hash.
-/
namespace UmariSavedModules
open FallibleFolds UniqueTables UmariStateDatabases UmariModuleEvents UmariModuleStore

/-- The value a list of variables gives a key; a map has each key once. -/
def assigned : List (String × String) → String → Option String
  | [], _ => none
  | entry :: rest, key => (assigned rest key).or (if entry.1 = key then some entry.2 else none)

theorem assigned_mem {envVars : List (String × String)} {key value : String}
    (given : assigned envVars key = some value) : (key, value) ∈ envVars := by
  induction envVars with
  | nil => exact absurd given (by simp [assigned])
  | cons entry rest ih =>
    rw [assigned, Option.or_eq_some_iff] at given
    rcases given with later | ⟨-, here⟩
    · exact List.mem_cons_of_mem _ (ih later)
    · split_ifs at here with named
      obtain rfl := Option.some.inj here
      exact named ▸ List.mem_cons_self

section env
variable (moduleType : ModuleType) (name : String)

def writeAll (envVars : List (String × String)) (table : Table EnvVarRow.Clash) :
    Table EnvVarRow.Clash :=
  envVars.foldl (fun table entry => table.replace ⟨moduleType, name, entry.1, entry.2⟩) table

variable {moduleType name}

theorem mem_writeAll {envVars : List (String × String)} {table : Table EnvVarRow.Clash}
    {row : EnvVarRow} : row ∈ writeAll moduleType name envVars table ↔
      (row.moduleType = moduleType ∧ row.name = name ∧ assigned envVars row.key = some row.value) ∨
      (row ∈ table ∧
        (row.moduleType = moduleType → row.name = name → assigned envVars row.key = none)) := by
  induction envVars generalizing table with
  | nil => simp [writeAll, assigned]
  | cons entry rest ih =>
    have step : writeAll moduleType name (entry :: rest) table =
        writeAll moduleType name rest (table.replace ⟨moduleType, name, entry.1, entry.2⟩) := rfl
    rw [step, ih, Table.mem_replace, assigned]
    obtain ⟨ty, owner, key, value⟩ := row
    by_cases own : ty = moduleType ∧ owner = name
    · obtain ⟨rfl, rfl⟩ := own
      cases later : assigned rest key with
      | some last => simp
      | none =>
        by_cases same : entry.1 = key
        · subst same
          simp [EnvVarRow.Clash, eq_comm]
        · simp [EnvVarRow.Clash, same, Ne.symm same]
    · have other : ¬ (ty = moduleType ∧ owner = name ∧ key = entry.1) := fun all =>
        own ⟨all.1, all.2.1⟩
      have apart : ∀ p : Prop, ty = moduleType → owner = name → p := fun p left right =>
        absurd ⟨left, right⟩ own
      have different : (⟨ty, owner, key, value⟩ : EnvVarRow) ≠
          ⟨moduleType, name, entry.1, entry.2⟩ := by
        intro equal
        exact own ⟨congrArg EnvVarRow.moduleType equal, congrArg EnvVarRow.name equal⟩
      simp only [EnvVarRow.Clash, other, different, not_false_eq_true, and_true, or_false]
      constructor
      · intro either
        rcases either with ⟨left, right, _⟩ | ⟨member, _⟩
        · exact absurd ⟨left, right⟩ own
        · exact Or.inr ⟨member, apart _⟩
      · intro either
        rcases either with ⟨left, right, _⟩ | ⟨member, _⟩
        · exact absurd ⟨left, right⟩ own
        · exact Or.inr ⟨member, apart _⟩

theorem writeAll_same {envVars : List (String × String)} {table : Table EnvVarRow.Clash} :
    (∀ row, row ∈ writeAll moduleType name envVars table ↔ row ∈ table) ↔
      ∀ key value, assigned envVars key = some value →
        (⟨moduleType, name, key, value⟩ : EnvVarRow) ∈ table := by
  constructor
  · intro same key value given
    exact (same _).mp (mem_writeAll.mpr (Or.inl ⟨rfl, rfl, given⟩))
  · intro present row
    rw [mem_writeAll]
    obtain ⟨ty, owner, key, value⟩ := row
    constructor
    · rintro (⟨rfl, rfl, given⟩ | ⟨member, -⟩)
      · exact present key value given
      · exact member
    · intro member
      by_cases own : ty = moduleType ∧ owner = name
      · obtain ⟨rfl, rfl⟩ := own
        cases given : assigned envVars key with
        | none => exact Or.inr ⟨member, fun _ _ => rfl⟩
        | some other =>
          have same := Table.eq_of_clash member (present key other given) ⟨rfl, rfl, rfl⟩
          obtain rfl := congrArg EnvVarRow.value same
          exact Or.inl ⟨rfl, rfl, rfl⟩
      · exact Or.inr ⟨member, fun left right => absurd ⟨left, right⟩ own⟩

/-- The variables that are written before a write fails. -/
def writtenVars (fails : Failures) : Nat → List (String × String) → List (String × String)
  | _, [] => []
  | n, entry :: rest => if fails n then [] else entry :: writtenVars fails (n + 1) rest

theorem writtenVars_first (fails : Failures) (n : Nat) (envVars : List (String × String)) :
    writtenVars fails n envVars <+: envVars := by
  induction envVars generalizing n with
  | nil => exact List.prefix_rfl
  | cons entry rest ih =>
    rw [writtenVars]
    split_ifs
    · exact List.nil_prefix
    · exact List.cons_prefix_cons.mpr ⟨rfl, ih (n + 1)⟩

theorem writeEnvVars_cases (fails : Failures) (n : Nat) (envVars : List (String × String))
    (table : Table EnvVarRow.Clash) :
    (writeEnvVars fails moduleType name n envVars table =
        (writeAll moduleType name envVars table, .ok ()) ∧
      writtenVars fails n envVars = envVars ∧ ∀ k < envVars.length, fails (n + k) = false) ∨
    (writeEnvVars fails moduleType name n envVars table =
        (writeAll moduleType name (writtenVars fails n envVars) table, .error diskError) ∧
      ∃ k < envVars.length, fails (n + k) = true) := by
  induction envVars generalizing n table with
  | nil => exact Or.inl ⟨rfl, rfl, fun k small => absurd small (Nat.not_lt_zero k)⟩
  | cons entry rest ih =>
    rw [writeEnvVars, writtenVars]
    cases failing : fails n with
    | true => exact Or.inr ⟨rfl, 0, Nat.zero_lt_succ _, failing⟩
    | false =>
      simp only [Bool.false_eq_true, if_false]
      rcases ih (n + 1) (table.replace ⟨moduleType, name, entry.1, entry.2⟩) with
        ⟨all, whole, calm⟩ | ⟨some_failed, k, small, failed⟩
      · refine Or.inl ⟨all, congrArg (entry :: ·) whole, fun k small => ?_⟩
        cases k with
        | zero => exact failing
        | succ k =>
          rw [← Nat.succ_add_eq_add_succ]
          exact calm k (Nat.lt_of_succ_lt_succ small)
      · refine Or.inr ⟨some_failed, k + 1, Nat.succ_lt_succ small, ?_⟩
        rw [← Nat.succ_add_eq_add_succ]
        exact failed

end env

def storedHash (store : Store) (moduleType : ModuleType) (name : String) (version : Version) :
    Option String :=
  (store.modules.find (ModuleRow.isVersion moduleType name version)).map (·.sha256)

section outcomes
variable (digest : List UInt8 → String) (store : Store) (fails : Failures)
  (moduleType : ModuleType) (name : String) (version : Version) (id : Int)
  (envVars : List (String × String)) (wasmBytes : List UInt8)

def newRow : ModuleRow := ⟨id, moduleType, name, version, wasmBytes, digest wasmBytes⟩

/-- Every statement of the call succeeds: four besides the writes of the variables. -/
def Calm (fails : Failures) (envVars : List (String × String)) : Prop :=
  ∀ n < envVars.length + 4, fails n = false

/-- The insert fails, and the failure has rolled the transaction back. -/
def Undone (fails : Failures) (name : String) : Prop :=
  isValidModuleName name = true ∧ fails 0 = false ∧ fails 1 = true ∧ fails.undoes 1 = true

instance (fails : Failures) (name : String) : Decidable (Undone fails name) :=
  inferInstanceAs (Decidable (_ ∧ _))

inductive Outcome : Store × Except ModuleStoreError Unit → Prop where
  | saved (modules : Table ModuleRow.Clash)
      (inserted : store.modules.insert (newRow digest moduleType name version id wasmBytes) =
        some modules) (executed : fails 1 = false) :
      Outcome ({ store with
        modules := modules
        envVars := writeAll moduleType name envVars store.envVars }, .ok ())
  | sameHash (valid : isValidModuleName name = true) (calm : Calm fails envVars)
      (stored : storedHash store moduleType name version = some (digest wasmBytes)) :
      Outcome (store, .error .moduleExistsWithSameHash)
  | failed (err : ModuleStoreError) (other : err ≠ .moduleExistsWithSameHash)
      (kept : ¬ Undone fails name)
      (cause : isValidModuleName name = false ∨ ¬ Calm fails envVars ∨
        storedHash store moduleType name version ≠ some (digest wasmBytes)) :
      Outcome (store, .error err)
  | undone (err : ModuleStoreError) (other : err ≠ .moduleExistsWithSameHash)
      (lost : Undone fails name) :
      Outcome ({ store with
        envVars := writeAll moduleType name (writtenVars fails 4 envVars) store.envVars },
        .error err)

variable {digest store fails moduleType name version id envVars wasmBytes}

theorem not_calm {n : Nat} (small : n < envVars.length + 4) (failing : fails n = true) :
    ¬ Calm fails envVars := fun calm => by
  rw [calm n small] at failing
  exact Bool.noConfusion failing

theorem finished_outcome (valid : isValidModuleName name = true) (begun : fails 0 = false)
    (open_ : (fails 1 && fails.undoes 1) = false)
    (calm : ∀ k < envVars.length, fails (4 + k) = false) :
    Outcome digest store fails moduleType name version id envVars wasmBytes
      (transaction store (if fails 1 then .error diskError
        else
          match store.modules.insert (newRow digest moduleType name version id wasmBytes) with
          | some modules =>
            attempt (fails 2) diskError (.ok ({ store with
              modules := modules
              envVars := writeAll moduleType name envVars store.envVars }, ()))
          | none =>
            if fails 3 && fails.undoes 3 then .error noTransactionError
            else if fails 2 then .error diskError
            else if (if fails 3 then none else storedHash store moduleType name version) =
              some (digest wasmBytes) then .error .moduleExistsWithSameHash
            else .error .moduleAlreadyExists)) := by
  have failing : ∀ n err, n < 4 → fails n = true → err ≠ .moduleExistsWithSameHash →
      Outcome digest store fails moduleType name version id envVars wasmBytes
        (store, .error err) := by
    intro n err small failed other
    refine Outcome.failed err other (fun lost => ?_)
      (Or.inr (Or.inl (not_calm (by omega) failed)))
    rw [lost.2.2.1, lost.2.2.2] at open_
    exact Bool.noConfusion open_
  cases executed : fails 1 with
  | true => exact failing 1 _ (by decide) executed (by simp [diskError])
  | false =>
    rw [if_neg Bool.noConfusion]
    cases inserted : store.modules.insert (newRow digest moduleType name version id wasmBytes) with
    | some modules =>
      cases ended : fails 2 with
      | true => exact failing 2 _ (by decide) ended (by simp [diskError])
      | false => exact Outcome.saved modules inserted executed
    | none =>
      cases looked : fails 3 with
      | true =>
        -- the failed lookup counts as a different hash
        simp only [Bool.true_and, if_true, reduceCtorEq, if_false]
        split_ifs
        · exact failing 3 _ (by decide) looked (by simp [noTransactionError])
        · exact failing 3 _ (by decide) looked (by simp [diskError])
        · exact failing 3 _ (by decide) looked (by simp)
      | false =>
        cases ended : fails 2 with
        | true => exact failing 2 _ (by decide) ended (by simp [diskError])
        | false =>
          simp only [Bool.false_and, Bool.false_eq_true, if_false]
          by_cases same : storedHash store moduleType name version = some (digest wasmBytes)
          · rw [if_pos same]
            refine Outcome.sameHash valid (fun n small => ?_) same
            obtain early | ⟨k, rfl⟩ : n < 4 ∨ ∃ k, n = 4 + k :=
              (Nat.lt_or_ge n 4).imp_right Nat.exists_eq_add_of_le
            · obtain rfl | rfl | rfl | rfl : n = 0 ∨ n = 1 ∨ n = 2 ∨ n = 3 := by omega
              · exact begun
              · exact executed
              · exact ended
              · exact looked
            · exact calm k (by omega)
          · rw [if_neg same]
            refine Outcome.failed _ (by simp) (fun lost => ?_) (Or.inr (Or.inr same))
            exact Bool.noConfusion (executed.symm.trans lost.2.2.1)

theorem saveModule_outcome : Outcome digest store fails moduleType name version id envVars wasmBytes
    (saveModule digest store fails moduleType name version id envVars wasmBytes) := by
  unfold saveModule
  cases valid : isValidModuleName name with
  | false =>
    rw [if_pos rfl]
    exact Outcome.failed _ (by simp) (fun lost => Bool.noConfusion (valid.symm.trans lost.1))
      (Or.inl valid)
  | true =>
    rw [if_neg Bool.noConfusion]
    cases begun : fails 0 with
    | true =>
      rw [if_pos rfl]
      exact Outcome.failed _ (by simp [diskError])
        (fun lost => Bool.noConfusion (begun.symm.trans lost.2.1))
        (Or.inr (Or.inl (not_calm (by omega) begun)))
    | false =>
      rw [if_neg Bool.noConfusion]
      dsimp only
      rcases writeEnvVars_cases fails 4 envVars store.envVars with
        ⟨loop, whole, calm⟩ | ⟨loop, k, small, failed⟩
      · rw [loop]
        cases lost : fails 1 && fails.undoes 1 with
        | true =>
          rw [Bool.and_eq_true] at lost
          have undone : Outcome digest store fails moduleType name version id envVars wasmBytes _ :=
            Outcome.undone noTransactionError (by simp [noTransactionError]) ⟨valid, begun, lost⟩
          rwa [whole] at undone
        | false => exact finished_outcome valid begun lost calm
      · rw [loop]
        cases lost : fails 1 && fails.undoes 1 with
        | true =>
          rw [Bool.and_eq_true] at lost
          exact Outcome.undone diskError (by simp [diskError]) ⟨valid, begun, lost⟩
        | false =>
          refine Outcome.failed diskError (by simp [diskError]) (fun undone => ?_)
            (Or.inr (Or.inl (not_calm (by omega) failed)))
          rw [undone.2.2.1, undone.2.2.2] at lost
          exact Bool.noConfusion lost

/-- All of a save happens or none of it, and the hash of a version that is stored is
    recognised. -/
structure AllOrNothing (digest : List UInt8 → String) (store : Store) (moduleType : ModuleType)
    (name : String) (version : Version) (id : Int) (envVars : List (String × String))
    (wasmBytes : List UInt8) (after : Store) (result : Except ModuleStoreError Unit) : Prop where
  nothing : ∀ err, result = .error err → SameRows store after
  sameHash : result = .error .moduleExistsWithSameHash ↔
    storedHash store moduleType name version = some (digest wasmBytes)
  added : result = .ok () → after.modules.rows =
    store.modules.rows ++ [newRow digest moduleType name version id wasmBytes]
  overridden : result = .ok () → ∀ row, row ∈ after.envVars ↔
    (row.moduleType = moduleType ∧ row.name = name ∧ assigned envVars row.key = some row.value) ∨
    (row ∈ store.envVars ∧
      (row.moduleType = moduleType → row.name = name → assigned envVars row.key = none))
  others : result = .ok () →
    after.activeModules = store.activeModules ∧ after.cryptoKeys = store.cryptoKeys

/-- A version that is stored with the hash of the bytes meets a valid name and no failing
    statement; and where the failure of the insert has rolled the transaction back, every
    variable written after it has its value already. -/
def Harmless (digest : List UInt8 → String) (store : Store) (fails : Failures)
    (moduleType : ModuleType) (name : String) (version : Version)
    (envVars : List (String × String)) (wasmBytes : List UInt8) : Prop :=
  (storedHash store moduleType name version = some (digest wasmBytes) →
    isValidModuleName name = true ∧ Calm fails envVars) ∧
  (Undone fails name → ∀ key value, assigned (writtenVars fails 4 envVars) key = some value →
    (⟨moduleType, name, key, value⟩ : EnvVarRow) ∈ store.envVars)

theorem unstored_of_inserted {modules : Table ModuleRow.Clash}
    (inserted : store.modules.insert (newRow digest moduleType name version id wasmBytes) =
      some modules) :
    store.modules.find (ModuleRow.isVersion moduleType name version) = none := by
  obtain ⟨_, free⟩ := Table.insert_some inserted
  apply Table.find_none.mpr
  intro m member
  apply Bool.eq_false_iff.mpr
  intro own
  exact free m member (Or.inr (isVersion_iff.mp own))

theorem allOrNothing_saved {modules : Table ModuleRow.Clash}
    (inserted : store.modules.insert (newRow digest moduleType name version id wasmBytes) =
      some modules) :
    AllOrNothing digest store moduleType name version id envVars wasmBytes
      { store with
        modules := modules
        envVars := writeAll moduleType name envVars store.envVars } (.ok ()) where
  nothing := fun err failed => absurd failed (by simp)
  sameHash := by
    rw [storedHash, unstored_of_inserted inserted]
    simp
  added := fun _ => (Table.insert_rows inserted).1
  overridden := fun _ row => mem_writeAll
  others := fun _ => ⟨rfl, rfl⟩

theorem allOrNothing_error {err : ModuleStoreError} {after : Store} :
    AllOrNothing digest store moduleType name version id envVars wasmBytes after (.error err) ↔
      SameRows store after ∧ (err = .moduleExistsWithSameHash ↔
        storedHash store moduleType name version = some (digest wasmBytes)) := by
  constructor
  · intro whole
    refine ⟨whole.nothing err rfl, ?_⟩
    rw [← whole.sameHash, Except.error.injEq]
  · rintro ⟨same, recognised⟩
    constructor
    · exact fun _ _ => same
    · rw [Except.error.injEq, recognised]
    · exact fun saved => absurd saved (by simp)
    · exact fun saved => absurd saved (by simp)
    · exact fun saved => absurd saved (by simp)

/-- For every store, every map of variables and every choice of failing statements. -/
theorem save_module_all_or_nothing_iff (digest : List UInt8 → String) (store : Store)
    (fails : Failures) (moduleType : ModuleType) (name : String) (version : Version) (id : Int)
    (envVars : List (String × String)) (wasmBytes : List UInt8) :
    AllOrNothing digest store moduleType name version id envVars wasmBytes
      (saveModule digest store fails moduleType name version id envVars wasmBytes).1
      (saveModule digest store fails moduleType name version id envVars wasmBytes).2 ↔
    Harmless digest store fails moduleType name version envVars wasmBytes := by
  have outcome : Outcome digest store fails moduleType name version id envVars wasmBytes
      (saveModule digest store fails moduleType name version id envVars wasmBytes) :=
    saveModule_outcome
  generalize saveModule digest store fails moduleType name version id envVars wasmBytes = saved
    at outcome ⊢
  cases outcome with
  | saved modules inserted executed =>
    refine ⟨fun _ => ⟨fun stored => ?_, fun lost => ?_⟩, fun _ => allOrNothing_saved inserted⟩
    · rw [storedHash, unstored_of_inserted inserted] at stored
      exact absurd stored (by simp)
    · exact Bool.noConfusion (executed.symm.trans lost.2.2.1)
  | sameHash valid calm stored =>
    rw [allOrNothing_error]
    refine ⟨fun _ => ⟨fun _ => ⟨valid, calm⟩, fun lost => ?_⟩,
      fun _ => ⟨.refl store, by simp [stored]⟩⟩
    exact absurd calm (not_calm (by omega) lost.2.2.1)
  | failed err other kept cause =>
    rw [allOrNothing_error]
    constructor
    · rintro ⟨-, recognised⟩
      exact ⟨fun stored => absurd (recognised.mpr stored) other, fun lost => absurd lost kept⟩
    · rintro ⟨stored, -⟩
      refine ⟨.refl store, fun same => absurd same other, fun same => ?_⟩
      obtain ⟨valid, calm⟩ := stored same
      rcases cause with invalid | failing | differs
      · exact Bool.noConfusion (valid.symm.trans invalid)
      · exact absurd calm failing
      · exact absurd same differs
  | undone err other lost =>
    rw [allOrNothing_error]
    constructor
    · rintro ⟨same, recognised⟩
      refine ⟨fun stored => absurd (recognised.mpr stored) other, fun _ => ?_⟩
      exact writeAll_same.mp same.envVars
    · rintro ⟨stored, present⟩
      refine ⟨⟨rfl, fun _ => Iff.rfl, writeAll_same.mpr (present lost), rfl⟩,
        fun same => absurd same other, fun same => ?_⟩
      exact absurd (stored same).2 (not_calm (by omega) lost.2.2.1)

end outcomes

section sample

def zeroDigest (_ : List UInt8) : String :=
  "6e340b9cffb37a989ca544e6bb780a2c78901d3fb33738768511a30617afa01d"

def diskFull : Failures := ⟨fun n => n == 1, fun n => n == 1⟩

def fullSave : Store × Except ModuleStoreError Unit :=
  saveModule zeroDigest init diskFull .command "hello" (release 1 0 0) 1 [("MODE", "fast")] [0]

/-- The call fails and its variable is stored. -/
theorem full_disk_keeps_variable :
    fullSave.2 = .error noTransactionError ∧ init.envVars.rows = [] ∧
      fullSave.1.envVars.rows = [⟨.command, "hello", "MODE", "fast"⟩] ∧
      ¬ AllOrNothing zeroDigest init .command "hello" (release 1 0 0) 1 [("MODE", "fast")] [0]
        fullSave.1 fullSave.2 := by
  have rows : fullSave.1.envVars.rows = [⟨.command, "hello", "MODE", "fast"⟩] := by decide +kernel
  have failed : fullSave.2 = .error noTransactionError := by decide +kernel
  refine ⟨failed, rfl, rows, fun whole => ?_⟩
  have same := (whole.nothing _ failed).envVars ⟨.command, "hello", "MODE", "fast"⟩
  exact absurd (same.mp (show _ ∈ fullSave.1.envVars.rows by simp [rows])) List.not_mem_nil

end sample

end UmariSavedModules
