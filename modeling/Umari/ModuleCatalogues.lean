import Mathlib.Data.String.Basic
import Umari.ByteIntegrity
import Umari.OrderedSets
import Umari.SavedModules

/-!
What the module store is for: a catalogue of versions with their bytes, at most one active
version for each module, and the module's variables. A catalogue has no rows, row
identifiers or hashes, and an active version is one it has. `Shows` ties a store to the
catalogue its rows stand for; every call of the store does what the catalogue does, or
fails and leaves it alone. Only a save that has lost its transaction leaves variables behind.
-/
namespace UmariModuleCatalogues
open FallibleFolds GuardedRuns OrderedSets UniqueTables UmariStateDatabases UmariModuleEvents
open UmariModuleStore UmariStoreReferences UmariSavedModules
open UmariPublishedModules (Intact mem_joined intact_changed)
open UmariByteIntegrity (found_version)

@[ext] structure Catalogue where
  versions : ModuleType → String → Version → Option (List UInt8)
  active : ModuleType → String → Option Version
  settings : ModuleType → String → String → Option String
  stored : ∀ {moduleType name version}, active moduleType name = some version →
    (versions moduleType name version).isSome = true

namespace Catalogue

def empty : Catalogue := ⟨fun _ _ _ => none, fun _ _ => none, fun _ _ _ => none, nofun⟩

section calls
variable (c : Catalogue) (moduleType : ModuleType) (name : String) (version : Version)

def setEnvVars (envVars : List (String × String)) : Catalogue :=
  { c with
    settings := fun ty owner key =>
      if ty = moduleType ∧ owner = name then (assigned envVars key).or (c.settings ty owner key)
      else c.settings ty owner key }

def add (envVars : List (String × String)) (wasmBytes : List UInt8) : Catalogue where
  versions := fun ty owner v =>
    if ty = moduleType ∧ owner = name ∧ v = version then some wasmBytes else c.versions ty owner v
  active := c.active
  settings := (c.setEnvVars moduleType name envVars).settings
  stored := by
    intro ty owner v active
    split
    · rfl
    · exact c.stored active

def saveModule (digest : List UInt8 → String) (envVars : List (String × String))
    (wasmBytes : List UInt8) : Catalogue × Except ModuleStoreError Unit :=
  if isValidModuleName name = false then (c, .error (.invalidName name))
  else
    match c.versions moduleType name version with
    | some bytes =>
      if digest bytes = digest wasmBytes then (c, .error .moduleExistsWithSameHash)
      else (c, .error .moduleAlreadyExists)
    | none => (c.add moduleType name version envVars wasmBytes, .ok ())

def activateModule : Catalogue × Except ModuleStoreError Bool :=
  if present : (c.versions moduleType name version).isSome = true then
    ({ c with
      active := fun ty owner =>
        if ty = moduleType ∧ owner = name then some version else c.active ty owner
      stored := by
        intro ty owner v active
        split at active
        · rename_i own
          cases active
          rw [own.1, own.2]
          exact present
        · exact c.stored active }, .ok true)
  else (c, .error (.moduleNotFound moduleType name version))

def deactivateModule : Catalogue × Except ModuleStoreError Bool :=
  ({ c with
    active := fun ty owner => if ty = moduleType ∧ owner = name then none else c.active ty owner
    stored := by
      intro ty owner v active
      split at active
      · cases active
      · exact c.stored active }, .ok (c.active moduleType name).isSome)

def remove (idle : c.active moduleType name ≠ some version) : Catalogue :=
  { c with
    versions := fun ty owner v =>
      if ty = moduleType ∧ owner = name ∧ v = version then none else c.versions ty owner v
    stored := by
      intro ty owner v active
      rw [if_neg]
      · exact c.stored active
      · rintro ⟨rfl, rfl, rfl⟩
        exact idle active }

def deleteModuleVersion : Catalogue × Except ModuleStoreError Bool :=
  match c.versions moduleType name version with
  | none => (c, .ok false)
  | some _ =>
    if idle : c.active moduleType name ≠ some version then
      (c.remove moduleType name version idle, .ok true)
    else (c, .error (.cannotDeleteActiveVersion moduleType name version))

open Classical in
noncomputable def deleteModule : Catalogue × Except ModuleStoreError Bool :=
  ({ versions := fun ty owner v =>
        if ty = moduleType ∧ owner = name then none else c.versions ty owner v
     active := fun ty owner => if ty = moduleType ∧ owner = name then none else c.active ty owner
     settings := fun ty owner key =>
        if ty = moduleType ∧ owner = name then none else c.settings ty owner key
     stored := by
      intro ty owner v active
      split at active
      · cases active
      · rename_i other
        rw [if_neg other]
        exact c.stored active },
    .ok (decide (∃ v, (c.versions moduleType name v).isSome = true)))

def setEnvVar (key value : String) : Catalogue × Except ModuleStoreError Unit :=
  ({ c with
    settings := fun ty owner k =>
      if ty = moduleType ∧ owner = name ∧ k = key then some value else c.settings ty owner k },
    .ok ())

def deleteEnvVar (key : String) : Catalogue × Except ModuleStoreError Bool :=
  ({ c with
    settings := fun ty owner k =>
      if ty = moduleType ∧ owner = name ∧ k = key then none else c.settings ty owner k },
    .ok (c.settings moduleType name key).isSome)

end calls
end Catalogue

structure Shows (s : Store) (c : Catalogue) : Prop where
  versions : ∀ ty owner v bytes, c.versions ty owner v = some bytes ↔
    ∃ m ∈ s.modules, m.moduleType = ty ∧ m.name = owner ∧ m.version = v ∧ m.wasmBytes = bytes
  active : ∀ ty owner v, c.active ty owner = some v ↔
    ∃ a ∈ s.activeModules, ∃ m ∈ s.modules,
      a.moduleId = m.id ∧ a.moduleType = ty ∧ a.name = owner ∧ m.version = v
  settings : ∀ ty owner key value, c.settings ty owner key = some value ↔
    (⟨ty, owner, key, value⟩ : EnvVarRow) ∈ s.envVars

/-- A call does what the catalogue does, or fails without a change; it only fails so where
    something of it did. -/
def Follows {A : Type} (calm : Prop) (s : Store) (done : Store × Except ModuleStoreError A)
    (spec : Catalogue × Except ModuleStoreError A) : Prop :=
  (Shows done.1 spec.1 ∧ done.2 = spec.2) ∨ (¬ calm ∧ done.1 = s ∧ ∃ err, done.2 = .error err)

section rows
variable {digest : List UInt8 → String} {s : Store} {c : Catalogue} {moduleType : ModuleType}
  {name : String} {version : Version}

theorem shows_found (shows : Shows s c) {m : ModuleRow}
    (found : s.modules.find (ModuleRow.isVersion moduleType name version) = some m) :
    c.versions moduleType name version = some m.wasmBytes := by
  obtain ⟨member, ty, named, same⟩ := found_version.mp found
  exact (shows.versions _ _ _ _).mpr ⟨m, member, ty, named, same, rfl⟩

theorem shows_missing (shows : Shows s c) :
    c.versions moduleType name version = none ↔
      s.modules.find (ModuleRow.isVersion moduleType name version) = none := by
  constructor
  · intro missing
    cases found : s.modules.find (ModuleRow.isVersion moduleType name version) with
    | none => rfl
    | some m =>
      rw [shows_found shows found] at missing
      cases missing
  · intro missing
    cases stored : c.versions moduleType name version with
    | none => rfl
    | some bytes =>
      obtain ⟨m, member, ty, named, same, _⟩ := (shows.versions _ _ _ _).mp stored
      rw [found_version.mpr ⟨member, ty, named, same⟩] at missing
      cases missing

theorem active_row (referenced : Referenced s) {a : ActiveRow} {m : ModuleRow}
    (live : a ∈ s.activeModules) (member : m ∈ s.modules) (id : a.moduleId = m.id) :
    m.moduleType = a.moduleType ∧ m.name = a.name := by
  obtain ⟨owner, present, own, ty, named⟩ := referenced.refers a live
  obtain rfl := module_unique present member (own.trans id)
  exact ⟨ty, named⟩

theorem active_iff_row (referenced : Referenced s) (shows : Shows s c) {m : ModuleRow}
    (found : s.modules.find (ModuleRow.isVersion moduleType name version) = some m) :
    c.active moduleType name = some version ↔ ∃ a ∈ s.activeModules, a.moduleId = m.id := by
  obtain ⟨member, rfl, rfl, rfl⟩ := found_version.mp found
  rw [shows.active]
  constructor
  · rintro ⟨a, live, other, there, id, ty, named, same⟩
    obtain ⟨otherType, otherName⟩ := active_row referenced live there id
    have clash : ModuleRow.Clash other m := Or.inr ⟨otherType.trans ty, otherName.trans named, same⟩
    obtain rfl := Table.eq_of_clash there member clash
    exact ⟨a, live, id⟩
  · rintro ⟨a, live, id⟩
    obtain ⟨ty, named⟩ := active_row referenced live member id
    exact ⟨a, live, m, member, id, ty.symm, named.symm, rfl⟩

end rows

section saves
variable {digest : List UInt8 → String} {s : Store} {c : Catalogue} {moduleType : ModuleType}
  {name : String} {version : Version} {id : Int} {envVars : List (String × String)}
  {wasmBytes : List UInt8}

theorem calm_save {fails : Failures} (calm : ∀ n, fails n = false)
    (valid : isValidModuleName name = true) :
    saveModule digest s fails moduleType name version id envVars wasmBytes =
      match s.modules.insert (newRow digest moduleType name version id wasmBytes) with
      | some modules => ({ s with
          modules := modules, envVars := writeAll moduleType name envVars s.envVars }, .ok ())
      | none =>
        if storedHash s moduleType name version = some (digest wasmBytes) then
          (s, .error .moduleExistsWithSameHash)
        else (s, .error .moduleAlreadyExists) := by
  unfold saveModule
  rw [if_neg (by simp [valid]), if_neg (by simp [calm])]
  dsimp only
  rcases writeEnvVars_cases fails 4 envVars s.envVars with ⟨loop, -⟩ | ⟨-, k, -, failed⟩
  · rw [loop]
    simp only [calm, Bool.false_and, Bool.false_eq_true, if_false, attempt, newRow, storedHash]
    cases s.modules.insert ⟨id, moduleType, name, version, wasmBytes, digest wasmBytes⟩ with
    | some modules => rfl
    | none =>
      by_cases same : (s.modules.find (ModuleRow.isVersion moduleType name version)).map
          (·.sha256) = some (digest wasmBytes)
      · simp [same, transaction, bind, Except.bind]
      · simp [same, transaction, bind, Except.bind]
  · rw [calm] at failed
    cases failed

theorem shows_written (shows : Shows s c) (ty : ModuleType) (owner key value : String) :
    (c.setEnvVars moduleType name envVars).settings ty owner key = some value ↔
      (⟨ty, owner, key, value⟩ : EnvVarRow) ∈ writeAll moduleType name envVars s.envVars := by
  simp only [Catalogue.setEnvVars, mem_writeAll]
  by_cases own : ty = moduleType ∧ owner = name
  · obtain ⟨rfl, rfl⟩ := own
    simp only [and_self, if_true, true_and, true_implies]
    cases given : assigned envVars key with
    | some set => simp
    | none => simp [shows.settings]
  · rw [if_neg own, shows.settings]
    constructor
    · exact fun member => Or.inr ⟨member, fun left right => absurd ⟨left, right⟩ own⟩
    · rintro (⟨left, right, _⟩ | ⟨member, _⟩)
      · exact absurd ⟨left, right⟩ own
      · exact member

theorem shows_added (referenced : Referenced s) (shows : Shows s c)
    {modules : Table ModuleRow.Clash}
    (inserted : s.modules.insert (newRow digest moduleType name version id wasmBytes) =
      some modules) :
    Shows { s with
        modules := modules, envVars := writeAll moduleType name envVars s.envVars }
      (c.add moduleType name version envVars wasmBytes) := by
  obtain ⟨members, free⟩ := Table.insert_some inserted
  have fresh : ∀ m ∈ s.modules, m.id ≠ id := fun m member same => free m member (Or.inl same)
  constructor
  · intro ty owner v bytes
    simp only [Catalogue.add, members]
    by_cases own : ty = moduleType ∧ owner = name ∧ v = version
    · obtain ⟨rfl, rfl, rfl⟩ := own
      simp only [and_self, if_true, Option.some.injEq]
      constructor
      · rintro rfl
        exact ⟨_, Or.inr rfl, rfl, rfl, rfl, rfl⟩
      · rintro ⟨m, before | rfl, ty', named, same, found⟩
        · exact absurd (Or.inr ⟨ty', named, same⟩) (free m before)
        · exact found
    · rw [if_neg own, shows.versions]
      constructor
      · rintro ⟨m, member, there⟩
        exact ⟨m, Or.inl member, there⟩
      · rintro ⟨m, before | rfl, ty', named, same, found⟩
        · exact ⟨m, before, ty', named, same, found⟩
        · exact absurd ⟨ty'.symm, named.symm, same.symm⟩ own
  · intro ty owner v
    simp only [Catalogue.add, members, shows.active]
    constructor
    · rintro ⟨a, live, m, member, there⟩
      exact ⟨a, live, m, Or.inl member, there⟩
    · rintro ⟨a, live, m, before | rfl, same, there⟩
      · exact ⟨a, live, m, before, same, there⟩
      · obtain ⟨owner', present, own, _⟩ := referenced.refers a live
        exact absurd (own.trans same) (fresh owner' present)
  · exact shows_written shows

theorem saveModule_follows (referenced : Referenced s) (intact : Intact digest s)
    (shows : Shows s c) {fails : Failures} (kept : ¬ Undone fails name) :
    Follows ((∀ n, fails n = false) ∧ ∀ m ∈ s.modules, m.id ≠ id) s
      (saveModule digest s fails moduleType name version id envVars wasmBytes)
      (c.saveModule moduleType name version digest envVars wasmBytes) := by
  cases valid : isValidModuleName name with
  | false =>
    left
    rw [saveModule, Catalogue.saveModule, if_pos valid, if_pos valid]
    exact ⟨shows, rfl⟩
  | true =>
    have named : ¬ isValidModuleName name = false := by simp [valid]
    have spec : ∀ {m}, s.modules.find (ModuleRow.isVersion moduleType name version) = some m →
        c.saveModule moduleType name version digest envVars wasmBytes =
          if m.sha256 = digest wasmBytes then (c, .error .moduleExistsWithSameHash)
          else (c, .error .moduleAlreadyExists) := by
      intro m found
      have member := (found_version.mp found).1
      rw [Catalogue.saveModule, if_neg named, shows_found shows found, intact m member]
    by_cases calm : ∀ n, fails n = false
    · rw [calm_save calm valid]
      cases inserted : s.modules.insert (newRow digest moduleType name version id wasmBytes) with
      | some modules =>
        left
        have missing := (shows_missing shows).mpr (unstored_of_inserted inserted)
        rw [Catalogue.saveModule, if_neg named, missing]
        exact ⟨shows_added referenced shows inserted, rfl⟩
      | none =>
        cases found : s.modules.find (ModuleRow.isVersion moduleType name version) with
        | some m =>
          left
          rw [spec found, storedHash, found]
          by_cases same : m.sha256 = digest wasmBytes
          · simpa [same] using shows
          · simpa [same] using shows
        | none =>
          -- the version is new, so the row identifier was taken
          right
          refine ⟨?_, by dsimp only; split <;> rfl, by dsimp only; split <;> exact ⟨_, rfl⟩⟩
          rintro ⟨_, fresh⟩
          obtain ⟨modules, made⟩ := Table.insert_free (t := s.modules)
            (r := newRow digest moduleType name version id wasmBytes) (by
              rintro old member (taken | same)
              · exact fresh old member taken
              · have refused := Table.find_none.mp found old member
                exact Bool.eq_false_iff.mp refused (isVersion_iff.mpr same))
          rw [inserted] at made
          cases made
    · have outcome : Outcome digest s fails moduleType name version id envVars wasmBytes
          (saveModule digest s fails moduleType name version id envVars wasmBytes) :=
        saveModule_outcome
      generalize saveModule digest s fails moduleType name version id envVars wasmBytes = done
        at outcome
      cases outcome with
      | saved modules inserted =>
        left
        have missing := (shows_missing shows).mpr (unstored_of_inserted inserted)
        rw [Catalogue.saveModule, if_neg named, missing]
        exact ⟨shows_added referenced shows inserted, rfl⟩
      | sameHash _ _ stored =>
        left
        obtain ⟨m, found, same⟩ := Option.map_eq_some_iff.mp stored
        rw [spec found, if_pos same]
        exact ⟨shows, rfl⟩
      | failed err => exact Or.inr ⟨fun quiet => calm quiet.1, rfl, err, rfl⟩
      | undone _ _ lost => exact absurd lost kept

theorem undone_save (shows : Shows s c) {fails : Failures} (lost : Undone fails name) :
    Shows (saveModule digest s fails moduleType name version id envVars wasmBytes).1
        (c.setEnvVars moduleType name (writtenVars fails 4 envVars)) ∧
      ∃ err, (saveModule digest s fails moduleType name version id envVars wasmBytes).2 =
        .error err := by
  have outcome : Outcome digest s fails moduleType name version id envVars wasmBytes
      (saveModule digest s fails moduleType name version id envVars wasmBytes) :=
    saveModule_outcome
  generalize saveModule digest s fails moduleType name version id envVars wasmBytes = done
    at outcome
  cases outcome with
  | saved _ _ executed => exact Bool.noConfusion (executed.symm.trans lost.2.2.1)
  | sameHash _ calm => exact absurd calm (not_calm (by omega) lost.2.2.1)
  | failed _ _ kept => exact absurd lost kept
  | undone err => exact ⟨⟨shows.versions, shows.active, shows_written shows⟩, err, rfl⟩

end saves

section activations
variable {s : Store} {c : Catalogue} {moduleType : ModuleType} {name : String} {version : Version}

theorem activateModule_follows (shows : Shows s c) (fails : Failures) :
    Follows (∀ n, fails n = false) s (activateModule s fails moduleType name version)
      (c.activateModule moduleType name version) := by
  have failing : ∀ {n}, fails n = true → ¬ ∀ n, fails n = false := by
    intro n failed calm
    rw [calm n] at failed
    cases failed
  unfold activateModule
  cases begins : fails 0 with
  | true => exact Or.inr ⟨failing begins, rfl, _, rfl⟩
  | false =>
    cases looks : fails 1 with
    | true => exact Or.inr ⟨failing looks, rfl, _, rfl⟩
    | false =>
      cases found : s.modules.find (ModuleRow.isVersion moduleType name version) with
      | none =>
        left
        have missing := (shows_missing shows).mpr found
        simp only [Catalogue.activateModule, missing]
        exact ⟨shows, rfl⟩
      | some m =>
        cases writes : fails 2 with
        | true => exact Or.inr ⟨failing writes, rfl, _, rfl⟩
        | false =>
          cases commits : fails 3 with
          | true => exact Or.inr ⟨failing commits, rfl, _, rfl⟩
          | false =>
            left
            obtain ⟨member, ty, named, same⟩ := found_version.mp found
            have present := shows_found shows found
            rw [Catalogue.activateModule, dif_pos (by simp [present])]
            refine ⟨⟨shows.versions, ?_, shows.settings⟩, rfl⟩
            intro ty' owner v
            change (if ty' = moduleType ∧ owner = name then _ else _) = _ ↔
              ∃ a ∈ s.activeModules.replace ⟨moduleType, name, m.id⟩, _
            simp only [Table.mem_replace, ActiveRow.Clash]
            by_cases own : ty' = moduleType ∧ owner = name
            · obtain ⟨rfl, rfl⟩ := own
              simp only [and_self, if_true, Option.some.injEq]
              constructor
              · rintro rfl
                exact ⟨_, Or.inr rfl, m, member, rfl, rfl, rfl, same⟩
              · rintro ⟨a, ⟨_, apart⟩ | rfl, other, there, id, ty', named', v⟩
                · exact absurd ⟨ty', named'⟩ apart
                · obtain rfl := module_unique there member id.symm
                  exact same.symm.trans v
            · rw [if_neg own, shows.active]
              constructor
              · rintro ⟨a, live, other, there, id, ty', named', v⟩
                refine ⟨a, Or.inl ⟨live, ?_⟩, other, there, id, ty', named', v⟩
                rintro ⟨left, right⟩
                exact own ⟨ty'.symm.trans left, named'.symm.trans right⟩
              · rintro ⟨a, ⟨live, _⟩ | rfl, other, there, id, ty', named', v⟩
                · exact ⟨a, live, other, there, id, ty', named', v⟩
                · exact absurd ⟨ty'.symm, named'.symm⟩ own

theorem active_isSome (referenced : Referenced s) (shows : Shows s c) :
    (c.active moduleType name).isSome = true ↔
      0 < s.activeModules.count (ActiveRow.isNamed moduleType name) := by
  rw [Table.count_pos, Option.isSome_iff_exists]
  constructor
  · rintro ⟨v, active⟩
    obtain ⟨a, live, _, _, _, ty, named, _⟩ := (shows.active _ _ _).mp active
    exact ⟨a, live, isNamed_iff.mpr ⟨ty, named⟩⟩
  · rintro ⟨a, live, own⟩
    obtain ⟨ty, named⟩ := isNamed_iff.mp own
    obtain ⟨m, member, id, _, _⟩ := referenced.refers a live
    exact ⟨m.version, (shows.active _ _ _).mpr ⟨a, live, m, member, id.symm, ty, named, rfl⟩⟩

theorem active_deleted (shows : Shows s c) (moduleType : ModuleType) (name : String)
    (ty : ModuleType) (owner : String) (v : Version) (kept : ModuleRow → Prop)
    (keeps : ∀ a ∈ s.activeModules, ¬ (a.moduleType = moduleType ∧ a.name = name) →
      ∀ m ∈ s.modules, a.moduleId = m.id → kept m) :
    (if ty = moduleType ∧ owner = name then none else c.active ty owner) = some v ↔
      ∃ a, (a ∈ s.activeModules ∧ ActiveRow.isNamed moduleType name a = false) ∧
        ∃ m, (m ∈ s.modules ∧ kept m) ∧
          a.moduleId = m.id ∧ a.moduleType = ty ∧ a.name = owner ∧ m.version = v := by
  by_cases own : ty = moduleType ∧ owner = name
  · obtain ⟨rfl, rfl⟩ := own
    simp only [and_self, if_true, reduceCtorEq, false_iff]
    rintro ⟨a, ⟨_, other⟩, m, _, _, ty, named, _⟩
    exact Bool.eq_false_iff.mp other (isNamed_iff.mpr ⟨ty, named⟩)
  · rw [if_neg own, shows.active]
    constructor
    · rintro ⟨a, live, m, member, id, ty', named, same⟩
      have apart : ¬ (a.moduleType = moduleType ∧ a.name = name) := by
        rintro ⟨left, right⟩
        exact own ⟨ty'.symm.trans left, named.symm.trans right⟩
      exact ⟨a, ⟨live, Bool.eq_false_iff.mpr (apart ∘ isNamed_iff.mp)⟩, m,
        ⟨member, keeps a live apart m member id⟩, id, ty', named, same⟩
    · rintro ⟨a, ⟨live, _⟩, m, ⟨member, _⟩, there⟩
      exact ⟨a, live, m, member, there⟩

theorem deactivateModule_follows (referenced : Referenced s) (shows : Shows s c) (failed : Bool) :
    Follows (failed = false) s (deactivateModule s moduleType name failed)
      (c.deactivateModule moduleType name) := by
  unfold deactivateModule
  cases failed with
  | true => exact Or.inr ⟨by simp, rfl, _, rfl⟩
  | false =>
    left
    have counted : decide (0 < s.activeModules.count (ActiveRow.isNamed moduleType name)) =
        (c.active moduleType name).isSome :=
      (Bool.eq_iff_iff.mpr ((active_isSome referenced shows).trans decide_eq_true_iff.symm)).symm
    refine ⟨⟨shows.versions, ?_, shows.settings⟩, congrArg Except.ok counted⟩
    intro ty owner v
    have deleted := active_deleted shows moduleType name ty owner v (fun _ => True)
      (fun _ _ _ _ _ _ => trivial)
    simp only [and_true] at deleted
    change (if ty = moduleType ∧ owner = name then none else c.active ty owner) = some v ↔
      ∃ a ∈ s.activeModules.delete (ActiveRow.isNamed moduleType name), _
    simp only [Table.mem_delete]
    exact deleted

theorem shows_removed (shows : Shows s c) {m : ModuleRow}
    (found : s.modules.find (ModuleRow.isVersion moduleType name version) = some m)
    (unused : ∀ a ∈ s.activeModules, decide (a.moduleId = m.id) = false)
    (idle : c.active moduleType name ≠ some version) :
    Shows { s with modules := s.modules.delete fun other => decide (other.id = m.id) }
      (c.remove moduleType name version idle) := by
  obtain ⟨member, ty, named, same⟩ := found_version.mp found
  constructor
  · intro ty' owner v bytes
    simp only [Catalogue.remove, Table.mem_delete]
    by_cases own : ty' = moduleType ∧ owner = name ∧ v = version
    · obtain ⟨rfl, rfl, rfl⟩ := own
      simp only [and_self, if_true, reduceCtorEq, false_iff]
      rintro ⟨other, ⟨there, apart⟩, ty'', named', same', _⟩
      have clash : ModuleRow.Clash other m :=
        Or.inr ⟨ty''.trans ty.symm, named'.trans named.symm, same'.trans same.symm⟩
      exact of_decide_eq_false apart (congrArg ModuleRow.id (Table.eq_of_clash there member clash))
    · rw [if_neg own, shows.versions]
      constructor
      · rintro ⟨other, there, ty'', named', same', bytes⟩
        refine ⟨other, ⟨there, decide_eq_false ?_⟩, ty'', named', same', bytes⟩
        intro id
        obtain rfl := module_unique there member id
        exact own ⟨ty''.symm.trans ty, named'.symm.trans named, same'.symm.trans same⟩
      · rintro ⟨other, ⟨there, _⟩, rest⟩
        exact ⟨other, there, rest⟩
  · intro ty' owner v
    simp only [Catalogue.remove, Table.mem_delete, shows.active]
    constructor
    · rintro ⟨a, live, other, there, id, rest⟩
      refine ⟨a, live, other, ⟨there, ?_⟩, id, rest⟩
      rw [← id]
      exact unused a live
    · rintro ⟨a, live, other, ⟨there, _⟩, rest⟩
      exact ⟨a, live, other, there, rest⟩
  · exact shows.settings

theorem deleteModuleVersion_follows (referenced : Referenced s) (shows : Shows s c)
    (fails : Failures) :
    Follows (∀ n, fails n = false) s (deleteModuleVersion s fails moduleType name version)
      (c.deleteModuleVersion moduleType name version) := by
  have failing : ∀ {n}, fails n = true → ¬ ∀ n, fails n = false := by
    intro n failed calm
    rw [calm n] at failed
    cases failed
  unfold deleteModuleVersion
  cases begins : fails 0 with
  | true => exact Or.inr ⟨failing begins, rfl, _, rfl⟩
  | false =>
    cases looks : fails 1 with
    | true => exact Or.inr ⟨failing looks, rfl, _, rfl⟩
    | false =>
      cases found : s.modules.find (ModuleRow.isVersion moduleType name version) with
      | none =>
        left
        rw [Catalogue.deleteModuleVersion, (shows_missing shows).mpr found]
        exact ⟨shows, rfl⟩
      | some m =>
        cases asks : fails 2 with
        | true => exact Or.inr ⟨failing asks, rfl, _, rfl⟩
        | false =>
          have member := (found_version.mp found).1
          rw [Catalogue.deleteModuleVersion, shows_found shows found]
          simp only [attempt, bind, Except.bind, Bool.false_eq_true, if_false]
          cases active : s.activeModules.find fun a => decide (a.moduleId = m.id) with
          | some a =>
            left
            obtain ⟨live, own⟩ := Table.find_some active
            have id : a.moduleId = m.id := of_decide_eq_true own
            have busy := (active_iff_row referenced shows found).mpr ⟨a, live, id⟩
            rw [dif_neg (not_not_intro busy)]
            exact ⟨shows, rfl⟩
          | none =>
            have idle : c.active moduleType name ≠ some version := by
              intro busy
              obtain ⟨a, live, id⟩ := (active_iff_row referenced shows found).mp busy
              exact of_decide_eq_false (Table.find_none.mp active a live) id
            cases removes : fails 3 with
            | true => exact Or.inr ⟨failing removes, rfl, _, rfl⟩
            | false =>
              cases commits : fails 4 with
              | true => exact Or.inr ⟨failing commits, rfl, _, rfl⟩
              | false =>
                left
                rw [dif_pos idle]
                have counted : 0 < s.modules.count fun other => decide (other.id = m.id) :=
                  Table.count_pos.mpr ⟨m, member, decide_eq_true rfl⟩
                refine ⟨?_, congrArg Except.ok (decide_eq_true counted)⟩
                exact shows_removed shows found (Table.find_none.mp active) idle

theorem versions_deleted (shows : Shows s c) (moduleType : ModuleType) (name : String)
    (ty : ModuleType) (owner : String) (v : Version) (bytes : List UInt8) :
    (if ty = moduleType ∧ owner = name then none else c.versions ty owner v) = some bytes ↔
      ∃ m ∈ s.modules.delete (ModuleRow.isNamed moduleType name),
        m.moduleType = ty ∧ m.name = owner ∧ m.version = v ∧ m.wasmBytes = bytes := by
  simp only [Table.mem_delete]
  by_cases own : ty = moduleType ∧ owner = name
  · obtain ⟨rfl, rfl⟩ := own
    simp only [and_self, if_true, reduceCtorEq, false_iff]
    rintro ⟨m, ⟨_, other⟩, ty, named, _⟩
    exact Bool.eq_false_iff.mp other (moduleNamed_iff.mpr ⟨ty, named⟩)
  · rw [if_neg own, shows.versions]
    constructor
    · rintro ⟨m, member, ty', named, rest⟩
      refine ⟨m, ⟨member, Bool.eq_false_iff.mpr ?_⟩, ty', named, rest⟩
      intro passes
      obtain ⟨left, right⟩ := moduleNamed_iff.mp passes
      exact own ⟨ty'.symm.trans left, named.symm.trans right⟩
    · rintro ⟨m, ⟨member, _⟩, rest⟩
      exact ⟨m, member, rest⟩

theorem settings_deleted (shows : Shows s c) (moduleType : ModuleType) (name : String)
    (ty : ModuleType) (owner key value : String) :
    (if ty = moduleType ∧ owner = name then none else c.settings ty owner key) = some value ↔
      (⟨ty, owner, key, value⟩ : EnvVarRow) ∈
        s.envVars.delete (EnvVarRow.isNamed moduleType name) := by
  rw [Table.mem_delete, ← shows.settings]
  by_cases own : ty = moduleType ∧ owner = name
  · simp [own, EnvVarRow.isNamed]
  · rw [if_neg own]
    have apart : EnvVarRow.isNamed moduleType name ⟨ty, owner, key, value⟩ = false := by
      apply Bool.eq_false_iff.mpr
      simpa [EnvVarRow.isNamed] using own
    simp [apart]

theorem stored_iff_count (shows : Shows s c) :
    0 < s.modules.count (ModuleRow.isNamed moduleType name) ↔
      ∃ v, (c.versions moduleType name v).isSome = true := by
  rw [Table.count_pos]
  constructor
  · rintro ⟨m, member, own⟩
    obtain ⟨ty, named⟩ := moduleNamed_iff.mp own
    have found := (shows.versions _ _ _ _).mpr ⟨m, member, ty, named, rfl, rfl⟩
    exact ⟨m.version, by rw [found]; rfl⟩
  · rintro ⟨v, stored⟩
    obtain ⟨bytes, found⟩ := Option.isSome_iff_exists.mp stored
    obtain ⟨m, member, ty, named, _⟩ := (shows.versions _ _ _ _).mp found
    exact ⟨m, member, moduleNamed_iff.mpr ⟨ty, named⟩⟩

theorem deleteModule_follows (referenced : Referenced s) (shows : Shows s c) (fails : Failures) :
    Follows (∀ n, fails n = false) s (deleteModule s fails moduleType name)
      (c.deleteModule moduleType name) := by
  have failing : ∀ {n}, fails n = true → ¬ ∀ n, fails n = false := by
    intro n failed calm
    rw [calm n] at failed
    cases failed
  unfold deleteModule
  cases begins : fails 0 with
  | true => exact Or.inr ⟨failing begins, rfl, _, rfl⟩
  | false =>
    cases first : fails 1 with
    | true => exact Or.inr ⟨failing first, rfl, _, rfl⟩
    | false =>
      cases second : fails 2 with
      | true => exact Or.inr ⟨failing second, rfl, _, rfl⟩
      | false =>
        cases third : fails 3 with
        | true => exact Or.inr ⟨failing third, rfl, _, rfl⟩
        | false =>
          cases commits : fails 4 with
          | true => exact Or.inr ⟨failing commits, rfl, _, rfl⟩
          | false =>
            left
            change Shows { s with
              modules := s.modules.delete (ModuleRow.isNamed moduleType name)
              activeModules := s.activeModules.delete (ActiveRow.isNamed moduleType name)
              envVars := s.envVars.delete (EnvVarRow.isNamed moduleType name) }
                (c.deleteModule moduleType name).1 ∧ _
            refine ⟨⟨?_, ?_, ?_⟩,
              congrArg Except.ok (decide_eq_decide.mpr (stored_iff_count shows))⟩
            · intro ty owner v bytes
              exact versions_deleted shows moduleType name ty owner v bytes
            · intro ty owner v
              have kept : ∀ a ∈ s.activeModules, ¬ (a.moduleType = moduleType ∧ a.name = name) →
                  ∀ m ∈ s.modules, a.moduleId = m.id →
                    ModuleRow.isNamed moduleType name m = false := by
                intro a live apart m member id
                obtain ⟨ty, named⟩ := active_row referenced live member id
                rw [← ty, ← named] at apart
                exact Bool.eq_false_iff.mpr (apart ∘ moduleNamed_iff.mp)
              have deleted := active_deleted shows moduleType name ty owner v
                (fun m => ModuleRow.isNamed moduleType name m = false) kept
              simp only [Table.mem_delete]
              exact deleted
            · intro ty owner key value
              exact settings_deleted shows moduleType name ty owner key value

end activations

section settings
variable {s : Store} {c : Catalogue} {moduleType : ModuleType} {name : String} {key value : String}

theorem setEnvVar_follows (shows : Shows s c) (failed : Bool) :
    Follows (failed = false) s (setEnvVar s moduleType name failed key value)
      (c.setEnvVar moduleType name key value) := by
  unfold setEnvVar
  cases failed with
  | true => exact Or.inr ⟨by simp, rfl, _, rfl⟩
  | false =>
    left
    refine ⟨⟨shows.versions, shows.active, ?_⟩, rfl⟩
    intro ty owner k v
    change (if ty = moduleType ∧ owner = name ∧ k = key then some value
      else c.settings ty owner k) = some v ↔
        _ ∈ s.envVars.replace ⟨moduleType, name, key, value⟩
    rw [Table.mem_replace]
    by_cases own : ty = moduleType ∧ owner = name ∧ k = key
    · obtain ⟨rfl, rfl, rfl⟩ := own
      simp [EnvVarRow.Clash, eq_comm]
    · rw [if_neg own, shows.settings]
      constructor
      · exact fun member => Or.inl ⟨member, own⟩
      · rintro (kept | same)
        · exact kept.1
        · cases same
          exact absurd ⟨rfl, rfl, rfl⟩ own

theorem deleteEnvVar_follows (shows : Shows s c) (failed : Bool) :
    Follows (failed = false) s (deleteEnvVar s moduleType name failed key)
      (c.deleteEnvVar moduleType name key) := by
  unfold deleteEnvVar
  cases failed with
  | true => exact Or.inr ⟨by simp, rfl, _, rfl⟩
  | false =>
    left
    have own : ∀ row : EnvVarRow, (row.isNamed moduleType name && decide (row.key = key)) = true ↔
        row.moduleType = moduleType ∧ row.name = name ∧ row.key = key := by
      intro row
      simp [EnvVarRow.isNamed, and_assoc]
    refine ⟨⟨shows.versions, shows.active, ?_⟩, congrArg Except.ok ?_⟩
    · intro ty owner k v
      change (if ty = moduleType ∧ owner = name ∧ k = key then none
        else c.settings ty owner k) = some v ↔ _ ∈ s.envVars.delete _
      rw [Table.mem_delete, Bool.eq_false_iff, ne_eq, own, ← shows.settings]
      by_cases here : ty = moduleType ∧ owner = name ∧ k = key
      · simp [here]
      · simp [here]
    · apply Bool.eq_iff_iff.mpr
      rw [decide_eq_true_iff, Table.count_pos, Option.isSome_iff_exists]
      constructor
      · rintro ⟨⟨ty, owner, k, v⟩, member, passes⟩
        obtain ⟨rfl, rfl, rfl⟩ := (own _).mp passes
        exact ⟨v, (shows.settings _ _ _ _).mpr member⟩
      · rintro ⟨v, set⟩
        exact ⟨_, (shows.settings _ _ _ _).mp set, (own _).mpr ⟨rfl, rfl, rfl⟩⟩

end settings

section queries
variable (store : Store) (moduleType : ModuleType) (name : String)

def getEnvVars : List (String × String) :=
  (store.envVars.rows.filter (EnvVarRow.isNamed moduleType name)).map fun e => (e.key, e.value)

def getModuleVersions : List (Version × String) :=
  ((store.modules.rows.filter (ModuleRow.isNamed moduleType name)).mergeSort
    fun a b => decide (a.id ≤ b.id)).map fun m => (m.version, m.sha256)

def getAllModuleNames : List String :=
  (OrderedSet.ofList ((store.modules.rows.filter fun m =>
    decide (m.moduleType = moduleType)).map (·.name))).toList

end queries

structure Answers (digest : List UInt8 → String) (s : Store) (c : Catalogue) : Prop where
  load : ∀ ty owner v, loadModule digest s ty owner v false =
    .ok ((c.versions ty owner v).map fun bytes => (bytes, digest bytes))
  active : ∀ ty owner, getActiveModule s ty owner =
    (c.active ty owner).bind fun v => (c.versions ty owner v).map fun bytes => (v, bytes)
  listed : ∀ filter m, m ∈ getAllActiveModules s filter ↔
    (∀ ty, filter = some ty → m.moduleType = ty) ∧
      c.active m.moduleType m.name = some m.version ∧
        c.versions m.moduleType m.name m.version = some m.wasmBytes ∧
          m.sha256 = digest m.wasmBytes
  settings : ∀ ty owner key value,
    (key, value) ∈ getEnvVars s ty owner ↔ c.settings ty owner key = some value
  versions : ∀ ty owner v hash, (v, hash) ∈ getModuleVersions s ty owner ↔
    ∃ bytes, c.versions ty owner v = some bytes ∧ hash = digest bytes
  names : ∀ ty owner, owner ∈ getAllModuleNames s ty ↔ ∃ v, (c.versions ty owner v).isSome = true

section answers
variable {digest : List UInt8 → String} {s : Store} {c : Catalogue} {ty : ModuleType}
  {owner : String}

theorem load_answers (intact : Intact digest s) (shows : Shows s c) (v : Version) :
    loadModule digest s ty owner v false =
      .ok ((c.versions ty owner v).map fun bytes => (bytes, digest bytes)) := by
  cases found : s.modules.find (ModuleRow.isVersion ty owner v) with
  | none =>
    rw [(shows_missing shows).mpr found, loadModule, found]
    rfl
  | some m =>
    have whole := intact m (found_version.mp found).1
    rw [shows_found shows found, loadModule_whole s found whole, whole]
    rfl

theorem active_answers (referenced : Referenced s) (shows : Shows s c) :
    getActiveModule s ty owner =
      (c.active ty owner).bind fun v => (c.versions ty owner v).map fun bytes => (v, bytes) := by
  unfold getActiveModule
  cases found : (joined s).find? fun pair => pair.1.isNamed ty owner with
  | none =>
    cases active : c.active ty owner with
    | none => rfl
    | some v =>
      obtain ⟨a, live, m, member, id, own, named, _⟩ := (shows.active _ _ _).mp active
      have listed : (a, m) ∈ joined s := mem_joined.mpr ⟨live, member, id⟩
      have refused := List.find?_eq_none.mp found _ listed
      exact absurd (isNamed_iff.mpr ⟨own, named⟩) refused
  | some pair =>
    obtain ⟨live, member, id⟩ := mem_joined.mp (List.mem_of_find?_eq_some found)
    have passes := List.find?_some found
    obtain ⟨own, named⟩ := isNamed_iff.mp passes
    have active := (shows.active ty owner pair.2.version).mpr
      ⟨pair.1, live, pair.2, member, id, own, named, rfl⟩
    obtain ⟨type, name⟩ := active_row referenced live member id
    have stored := (shows.versions ty owner pair.2.version pair.2.wasmBytes).mpr
      ⟨pair.2, member, type.trans own, name.trans named, rfl, rfl⟩
    rw [active, Option.bind_some, stored]
    rfl

theorem listed_answers (referenced : Referenced s) (intact : Intact digest s) (shows : Shows s c)
    (filter : Option ModuleType) (m : Module) : m ∈ getAllActiveModules s filter ↔
      (∀ ty, filter = some ty → m.moduleType = ty) ∧
        c.active m.moduleType m.name = some m.version ∧
          c.versions m.moduleType m.name m.version = some m.wasmBytes ∧
            m.sha256 = digest m.wasmBytes := by
  unfold getAllActiveModules
  rw [List.mem_map]
  constructor
  · rintro ⟨⟨a, row⟩, listed, rfl⟩
    obtain ⟨together, asked⟩ := List.mem_filter.mp listed
    obtain ⟨live, member, id⟩ := mem_joined.mp together
    obtain ⟨type, name⟩ := active_row referenced live member id
    refine ⟨?_, ?_, ?_, intact row member⟩
    · rintro ty rfl
      exact of_decide_eq_true asked
    · exact (shows.active _ _ _).mpr ⟨a, live, row, member, id, rfl, rfl, rfl⟩
    · exact (shows.versions _ _ _ _).mpr ⟨row, member, type, name, rfl, rfl⟩
  · rintro ⟨asked, active, stored, hash⟩
    obtain ⟨a, live, row, member, id, type, name, version⟩ := (shows.active _ _ _).mp active
    obtain ⟨rowType, rowName⟩ := active_row referenced live member id
    obtain ⟨other, there, otherType, otherName, same, bytes⟩ := (shows.versions _ _ _ _).mp stored
    have clash : ModuleRow.Clash other row := Or.inr ⟨otherType.trans (rowType.trans type).symm,
      otherName.trans (rowName.trans name).symm, same.trans version.symm⟩
    obtain rfl := Table.eq_of_clash there member clash
    refine ⟨(a, other), List.mem_filter.mpr ⟨mem_joined.mpr ⟨live, member, id⟩, ?_⟩, ?_⟩
    · cases filter with
      | none => rfl
      | some ty => exact decide_eq_true (type.trans (asked ty rfl))
    · have digested : other.sha256 = m.sha256 := by rw [hash, intact other there, bytes]
      obtain ⟨ty, owner, v, sha256, wasmBytes⟩ := m
      simp only at type name version bytes digested
      simp only [type, name, version, digested, bytes]

theorem settings_answers (shows : Shows s c) (key value : String) :
    (key, value) ∈ getEnvVars s ty owner ↔ c.settings ty owner key = some value := by
  rw [shows.settings, getEnvVars, List.mem_map]
  constructor
  · rintro ⟨⟨type, name, k, v⟩, listed, same⟩
    obtain ⟨member, own⟩ := List.mem_filter.mp listed
    simp only [EnvVarRow.isNamed, Bool.and_eq_true, decide_eq_true_iff] at own
    obtain ⟨rfl, rfl⟩ := own
    cases same
    exact member
  · intro member
    exact ⟨_, List.mem_filter.mpr ⟨member, by simp [EnvVarRow.isNamed]⟩, rfl⟩

theorem versions_answers (intact : Intact digest s) (shows : Shows s c) (v : Version)
    (hash : String) : (v, hash) ∈ getModuleVersions s ty owner ↔
      ∃ bytes, c.versions ty owner v = some bytes ∧ hash = digest bytes := by
  simp only [getModuleVersions, List.mem_map, List.mem_mergeSort, List.mem_filter, moduleNamed_iff,
    shows.versions]
  constructor
  · rintro ⟨m, ⟨member, type, name⟩, same⟩
    cases same
    exact ⟨m.wasmBytes, ⟨m, member, type, name, rfl, rfl⟩, intact m member⟩
  · rintro ⟨_, ⟨m, member, type, name, rfl, rfl⟩, rfl⟩
    exact ⟨m, ⟨member, type, name⟩, by rw [intact m member]⟩

theorem names_answers (shows : Shows s c) :
    owner ∈ getAllModuleNames s ty ↔ ∃ v, (c.versions ty owner v).isSome = true := by
  rw [← stored_iff_count shows, Table.count_pos]
  simp only [getAllModuleNames, OrderedSet.mem_toList, OrderedSet.mem_ofList, List.mem_map,
    List.mem_filter, decide_eq_true_iff, moduleNamed_iff]
  constructor
  · rintro ⟨m, ⟨member, type⟩, name⟩
    exact ⟨m, member, type, name⟩
  · rintro ⟨m, member, type, name⟩
    exact ⟨m, ⟨member, type⟩, name⟩

theorem answers_of_shows (referenced : Referenced s) (intact : Intact digest s)
    (shows : Shows s c) : Answers digest s c where
  load := fun _ _ v => load_answers intact shows v
  active := fun _ _ => active_answers referenced shows
  listed := listed_answers referenced intact shows
  settings := fun _ _ key value => settings_answers shows key value
  versions := fun _ _ v hash => versions_answers intact shows v hash
  names := fun _ _ => names_answers shows

end answers

/-- Every call follows the catalogue, whatever of it fails, but for a save that has lost its
transaction. -/
structure CallsFollow (digest : List UInt8 → String) (s : Store) (c : Catalogue) : Prop where
  undoneSave : ∀ fails moduleType name version id envVars wasmBytes, Undone fails name →
    Shows (saveModule digest s fails moduleType name version id envVars wasmBytes).1
        (c.setEnvVars moduleType name (writtenVars fails 4 envVars)) ∧
      ∃ err, (saveModule digest s fails moduleType name version id envVars wasmBytes).2 =
        .error err
  saveModule : ∀ fails moduleType name version id envVars wasmBytes, ¬ Undone fails name →
    Follows ((∀ n, fails n = false) ∧ ∀ m ∈ s.modules, m.id ≠ id) s
      (saveModule digest s fails moduleType name version id envVars wasmBytes)
      (c.saveModule moduleType name version digest envVars wasmBytes)
  activateModule : ∀ fails moduleType name version, Follows (∀ n, fails n = false) s
    (activateModule s fails moduleType name version) (c.activateModule moduleType name version)
  deactivateModule : ∀ failed moduleType name, Follows (failed = false) s
    (deactivateModule s moduleType name failed) (c.deactivateModule moduleType name)
  deleteModuleVersion : ∀ fails moduleType name version, Follows (∀ n, fails n = false) s
    (deleteModuleVersion s fails moduleType name version)
    (c.deleteModuleVersion moduleType name version)
  deleteModule : ∀ fails moduleType name, Follows (∀ n, fails n = false) s
    (deleteModule s fails moduleType name) (c.deleteModule moduleType name)
  setEnvVar : ∀ failed moduleType name key value, Follows (failed = false) s
    (setEnvVar s moduleType name failed key value) (c.setEnvVar moduleType name key value)
  deleteEnvVar : ∀ failed moduleType name key, Follows (failed = false) s
    (deleteEnvVar s moduleType name failed key) (c.deleteEnvVar moduleType name key)

section runs
variable {digest : List UInt8 → String} {s t : Store} {c : Catalogue}

theorem calls_follow (referenced : Referenced s) (intact : Intact digest s) (shows : Shows s c) :
    CallsFollow digest s c where
  saveModule := fun _ _ _ _ _ _ _ kept => saveModule_follows referenced intact shows kept
  undoneSave := fun _ _ _ _ _ _ _ lost => undone_save shows lost
  activateModule := fun fails _ _ _ => activateModule_follows shows fails
  deactivateModule := fun failed _ _ => deactivateModule_follows referenced shows failed
  deleteModuleVersion := fun fails _ _ _ => deleteModuleVersion_follows referenced shows fails
  deleteModule := fun fails _ _ => deleteModule_follows referenced shows fails
  setEnvVar := fun failed _ _ _ _ => setEnvVar_follows shows failed
  deleteEnvVar := fun failed _ _ _ => deleteEnvVar_follows shows failed

/-- Whether a call reports success; the calls about keys show nothing in a catalogue. -/
def succeeds (digest : List UInt8 → String) (s : Store) : Operation → Bool
  | .saveModule fails moduleType name version id envVars wasmBytes =>
    (saveModule digest s fails moduleType name version id envVars wasmBytes).2.isOk
  | .activateModule fails moduleType name version =>
    (activateModule s fails moduleType name version).2.isOk
  | .deactivateModule failed moduleType name => (deactivateModule s moduleType name failed).2.isOk
  | .deleteModuleVersion fails moduleType name version =>
    (deleteModuleVersion s fails moduleType name version).2.isOk
  | .deleteModule fails moduleType name => (deleteModule s fails moduleType name).2.isOk
  | .setEnvVar failed moduleType name key value =>
    (setEnvVar s moduleType name failed key value).2.isOk
  | .deleteEnvVar failed moduleType name key => (deleteEnvVar s moduleType name failed key).2.isOk
  | _ => false

noncomputable def Catalogue.apply (digest : List UInt8 → String) (c : Catalogue) :
    Operation → Catalogue
  | .saveModule _ moduleType name version _ envVars wasmBytes =>
    (c.saveModule moduleType name version digest envVars wasmBytes).1
  | .activateModule _ moduleType name version => (c.activateModule moduleType name version).1
  | .deactivateModule _ moduleType name => (c.deactivateModule moduleType name).1
  | .deleteModuleVersion _ moduleType name version =>
    (c.deleteModuleVersion moduleType name version).1
  | .deleteModule _ moduleType name => (c.deleteModule moduleType name).1
  | .setEnvVar _ moduleType name key value => (c.setEnvVar moduleType name key value).1
  | .deleteEnvVar _ moduleType name key => (c.deleteEnvVar moduleType name key).1
  | _ => c

inductive Effect where
  | call (operation : Operation)
  | variables (moduleType : ModuleType) (name : String) (envVars : List (String × String))

noncomputable def Catalogue.take (digest : List UInt8 → String) (c : Catalogue) :
    Effect → Catalogue
  | .call operation => c.apply digest operation
  | .variables moduleType name envVars => c.setEnvVars moduleType name envVars

def left : Operation → List Effect
  | .saveModule fails moduleType name _ _ envVars _ =>
    if Undone fails name then [.variables moduleType name (writtenVars fails 4 envVars)] else []
  | _ => []

def effects (digest : List UInt8 → String) : Store → List Operation → List Effect
  | _, [] => []
  | s, operation :: rest =>
    (if succeeds digest s operation then [.call operation] else left operation) ++
      effects digest (call digest s operation) rest

theorem follows_shows {A : Type} {calm : Prop} {done : Store × Except ModuleStoreError A}
    {spec : Catalogue × Except ModuleStoreError A} (shows : Shows s c)
    (follows : Follows calm s done spec)
    (unchanged : ∀ err, spec.2 = .error err → spec.1 = c) :
    Shows done.1 (if done.2.isOk then spec.1 else c) := by
  rcases follows with ⟨after, same⟩ | ⟨_, kept, err, failed⟩
  · cases answer : spec.2 with
    | ok a =>
      rw [same, answer]
      exact after
    | error err =>
      rw [same, answer, ← unchanged err answer]
      exact after
  · rw [kept, failed]
    exact shows

theorem shows_call (referenced : Referenced s) (intact : Intact digest s) (shows : Shows s c)
    (operation : Operation) : Shows (call digest s operation)
      ((if succeeds digest s operation then [.call operation] else left operation).foldl
        (Catalogue.take digest) c) := by
  have single : ((if succeeds digest s operation then [Effect.call operation] else
      left operation).foldl (Catalogue.take digest) c) =
        if succeeds digest s operation then c.apply digest operation
        else (left operation).foldl (Catalogue.take digest) c := by
    split <;> rfl
  rw [single]
  have follow := calls_follow referenced intact shows
  cases operation with
  | saveModule fails moduleType name version id envVars wasmBytes =>
    by_cases lost : Undone fails name
    · obtain ⟨after, err, failed⟩ :=
        follow.undoneSave fails moduleType name version id envVars wasmBytes lost
      rw [succeeds, failed, left, if_pos lost]
      exact after
    · rw [left, if_neg lost]
      apply follows_shows shows
        (follow.saveModule fails moduleType name version id envVars wasmBytes lost)
      intro err failed
      unfold Catalogue.saveModule at failed ⊢
      grind
  | activateModule fails moduleType name version =>
    apply follows_shows shows (follow.activateModule fails moduleType name version)
    intro err failed
    unfold Catalogue.activateModule at failed ⊢
    grind
  | deactivateModule failed moduleType name =>
    exact follows_shows shows (follow.deactivateModule failed moduleType name) nofun
  | deleteModuleVersion fails moduleType name version =>
    apply follows_shows shows (follow.deleteModuleVersion fails moduleType name version)
    intro err failed
    unfold Catalogue.deleteModuleVersion at failed ⊢
    grind
  | deleteModule fails moduleType name =>
    exact follows_shows shows (follow.deleteModule fails moduleType name) nofun
  | setEnvVar failed moduleType name key value =>
    exact follows_shows shows (follow.setEnvVar failed moduleType name key value) nofun
  | deleteEnvVar failed moduleType name key =>
    exact follows_shows shows (follow.deleteEnvVar failed moduleType name key) nofun
  | createCryptoKey | deleteCryptoKey => exact ⟨shows.versions, shows.active, shows.settings⟩
  | read => exact shows

theorem shows_init : Shows init Catalogue.empty := by
  constructor
  · intro ty owner v bytes
    exact ⟨nofun, fun ⟨_, member, _⟩ => absurd member Table.not_mem_empty⟩
  · intro ty owner v
    exact ⟨nofun, fun ⟨_, live, _⟩ => absurd live Table.not_mem_empty⟩
  · intro ty owner key value
    exact ⟨nofun, fun member => absurd member Table.not_mem_empty⟩

theorem shows_run {operations : List Operation} (referenced : Referenced s)
    (intact : Intact digest s) (shows : Shows s c)
    (run : exec (step digest) s operations = some t) : Referenced t ∧ Intact digest t ∧
      Shows t ((effects digest s operations).foldl (Catalogue.take digest) c) := by
  induction operations generalizing s c with
  | nil =>
    cases run
    exact ⟨referenced, intact, shows⟩
  | cons operation rest ih =>
    obtain ⟨next, taken, tail⟩ := exec_cons.mp run
    have referencedNext := (safe_step referenced taken).1
    cases taken
    have later := ih referencedNext (intact_changed intact (call_changed digest s operation))
      (shows_call referenced intact shows operation) tail
    rw [effects, List.foldl_append]
    exact later

theorem shows_reached {operations : List Operation}
    (run : exec (step digest) init operations = some s) : Referenced s ∧ Intact digest s ∧
      Shows s ((effects digest init operations).foldl (Catalogue.take digest) .empty) :=
  shows_run referenced_init (fun _ member => absurd member Table.not_mem_empty) shows_init run

/-- After any sequence of calls, with failures anywhere in them, the store shows what the
    successful calls, and the variables that lost saves left, make of an empty catalogue, and
    its next call follows it. -/
theorem store_follows_catalogue {operations : List Operation}
    (run : exec (step digest) init operations = some s) :
    Shows s ((effects digest init operations).foldl (Catalogue.take digest) .empty) ∧
      CallsFollow digest s
        ((effects digest init operations).foldl (Catalogue.take digest) .empty) := by
  obtain ⟨referenced, intact, shows⟩ := shows_reached run
  exact ⟨shows, calls_follow referenced intact shows⟩

/-- Every query of the store is answered from that catalogue. -/
theorem store_answers_catalogue {operations : List Operation}
    (run : exec (step digest) init operations = some s) :
    Answers digest s
      ((effects digest init operations).foldl (Catalogue.take digest) .empty) := by
  obtain ⟨referenced, intact, shows⟩ := shows_reached run
  exact answers_of_shows referenced intact shows

end runs

section sample
open UmariByteIntegrity

def thirdLost : List Operation := twoVersions ++
  [.saveModule diskFull .command "hello" (release 2 0 0) 3 [("MODE", "fast")] wholeBytes]

def lostStore : Store := (exec (step sampleDigest) init thirdLost).getD init

theorem lost_run : exec (step sampleDigest) init thirdLost = some lostStore := rfl

theorem hello_follows :
    (Shows lostStore ((effects sampleDigest init thirdLost).foldl
        (Catalogue.take sampleDigest) .empty) ∧
      CallsFollow sampleDigest lostStore
        ((effects sampleDigest init thirdLost).foldl (Catalogue.take sampleDigest) .empty)) ∧
    lostStore.modules.rows.length = 2 ∧
      lostStore.envVars.rows = [⟨.command, "hello", "MODE", "fast"⟩] :=
  ⟨store_follows_catalogue lost_run, by decide +kernel, by decide +kernel⟩

theorem hello_answers : Answers sampleDigest lostStore
    ((effects sampleDigest init thirdLost).foldl (Catalogue.take sampleDigest) .empty) :=
  store_answers_catalogue lost_run

end sample

end UmariModuleCatalogues
