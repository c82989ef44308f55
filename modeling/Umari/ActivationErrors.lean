import Umari.ByteIntegrity

/-!
An activation that reports an error. The active row is committed first; then the bytes
are read back and checked, and then the event is sent. Only an error of the first part
leaves the row alone.
-/
namespace UmariActivationErrors
open FallibleFolds GuardedRuns UniqueTables UmariStateDatabases UmariModuleEvents
open UmariModuleStore UmariByteIntegrity
open UmariStoreReferences (module_unique)
open UmariPublishedModules (ModuleStoreActor PublishedEvent mem_joined)

def activateModule (digest : List UInt8 → String) (sendFails : Bool) (fails : Failures)
    (s : ModuleStoreActor) (moduleType : ModuleType) (name : String) (version : Version) :
    ModuleStoreActor × Except ModuleStoreError Unit :=
  match UmariModuleStore.activateModule s.store fails moduleType name version with
  | (store, .error err) => ({ s with store := store }, .error err)
  | (store, .ok false) => ({ s with store := store }, .ok ())
  | (store, .ok true) =>
    match loadModule digest store moduleType name version (fails 4) with
    | .error err => ({ s with store := store }, .error err)
    | .ok none => ({ s with store := store }, .error (.moduleNotFound moduleType name version))
    | .ok (some (wasmBytes, _)) =>
      if sendFails then ({ s with store := store }, .error .modulePubSubSendError)
      else (s.publish store (.activated moduleType name version wasmBytes), .ok ())

def activeVersion (store : Store) (moduleType : ModuleType) (name : String) : Option Version :=
  (getActiveModule store moduleType name).map (·.1)

/-- The version is stored and no statement of the activation's transaction fails. -/
def Commits (store : Store) (fails : Failures) (moduleType : ModuleType) (name : String)
    (version : Version) : Prop :=
  (fails 0 = false ∧ fails 1 = false ∧ fails 2 = false ∧ fails 3 = false) ∧
    ∃ m, store.modules.find (ModuleRow.isVersion moduleType name version) = some m

section errors
variable {digest : List UInt8 → String} {sendFails : Bool} {fails : Failures}
  {s t : ModuleStoreActor} {store : Store} {moduleType : ModuleType} {name : String}
  {version : Version}

theorem activateModule_sent : activateModule digest false fails s moduleType name version =
    s.activateModule moduleType name digest fails version := by
  unfold activateModule ModuleStoreActor.activateModule
  rfl

theorem activate_of_commits (commits : Commits store fails moduleType name version) :
    ∃ m, store.modules.find (ModuleRow.isVersion moduleType name version) = some m ∧
      UmariModuleStore.activateModule store fails moduleType name version =
        ({ store with activeModules := store.activeModules.replace ⟨moduleType, name, m.id⟩ },
          .ok true) := by
  obtain ⟨⟨begins, looks, writes, ends⟩, m, found⟩ := commits
  refine ⟨m, found, ?_⟩
  simp [UmariModuleStore.activateModule, transaction, attempt, begins, looks, writes, ends, found,
    bind, Except.bind]

theorem activate_of_not_commits (failsEarly : ¬ Commits store fails moduleType name version) :
    ∃ err, UmariModuleStore.activateModule store fails moduleType name version =
      (store, .error err) := by
  unfold UmariModuleStore.activateModule transaction
  split
  · rename_i t a body
    simp only [do_ok, attempt_ok] at body
    obtain ⟨_, ⟨begins, _⟩, row, ⟨looks, found⟩, rest⟩ := body
    obtain rfl := Except.ok.inj found
    split at rest
    · exact absurd rest (by simp)
    · rename_i m here
      simp only [do_ok, attempt_ok] at rest
      obtain ⟨_, ⟨writes, _⟩, ends, _⟩ := rest
      exact absurd ⟨⟨begins, looks, writes, ends⟩, m, here⟩ failsEarly
  · exact ⟨_, rfl⟩

theorem activateModule_committed (commits : Commits s.store fails moduleType name version) :
    ∃ m, s.store.modules.find (ModuleRow.isVersion moduleType name version) = some m ∧
      (activateModule digest sendFails fails s moduleType name version).1.store =
        { s.store with
          activeModules := s.store.activeModules.replace ⟨moduleType, name, m.id⟩ } := by
  obtain ⟨m, found, activated⟩ := activate_of_commits commits
  refine ⟨m, found, ?_⟩
  unfold activateModule
  rw [activated]
  dsimp only
  split
  · rfl
  · rfl
  · split
    · rfl
    · rfl

theorem activateModule_uncommitted (failsEarly : ¬ Commits s.store fails moduleType name version) :
    ∃ err, activateModule digest sendFails fails s moduleType name version = (s, .error err) := by
  obtain ⟨err, unchanged⟩ := activate_of_not_commits failsEarly
  refine ⟨err, ?_⟩
  unfold activateModule
  rw [unchanged]

theorem activeVersion_replaced {m : ModuleRow}
    (found : store.modules.find (ModuleRow.isVersion moduleType name version) = some m) :
    activeVersion { store with
      activeModules := store.activeModules.replace ⟨moduleType, name, m.id⟩ } moduleType name =
        some version := by
  obtain ⟨there, passes⟩ := Table.find_some found
  obtain ⟨_, _, same⟩ := isVersion_iff.mp passes
  unfold activeVersion getActiveModule
  cases active : (joined { store with
      activeModules := store.activeModules.replace ⟨moduleType, name, m.id⟩ }).find? fun pair =>
        pair.1.isNamed moduleType name with
  | none =>
    have row : (⟨⟨moduleType, name, m.id⟩, m⟩ : ActiveRow × ModuleRow) ∈ joined { store with
        activeModules := store.activeModules.replace ⟨moduleType, name, m.id⟩ } :=
      mem_joined.mpr ⟨Table.mem_replace.mpr (Or.inr rfl), there, rfl⟩
    have own : ActiveRow.isNamed moduleType name ⟨moduleType, name, m.id⟩ = true :=
      isNamed_iff.mpr ⟨rfl, rfl⟩
    exact absurd own (List.find?_eq_none.mp active _ row)
  | some pair =>
    have own := List.find?_some active
    obtain ⟨ty, named⟩ := isNamed_iff.mp own
    obtain ⟨live, listed, id⟩ := mem_joined.mp (List.mem_of_find?_eq_some active)
    rcases Table.mem_replace.mp live with ⟨_, apart⟩ | new
    · exact absurd ⟨ty, named⟩ apart
    · rw [new] at id
      obtain rfl := module_unique listed there id.symm
      simp only [Option.map_some, same]

/-- An activation that reports an error leaves the active version as it was exactly when
    its own transaction failed or the version was active already. -/
theorem failed_activation_keeps_version_iff
    (failed : ∃ err, activateModule digest sendFails fails s moduleType name version =
      (t, .error err)) :
    activeVersion t.store moduleType name = activeVersion s.store moduleType name ↔
      ¬ Commits s.store fails moduleType name version ∨
        activeVersion s.store moduleType name = some version := by
  obtain ⟨err, failed⟩ := failed
  have after : (activateModule digest sendFails fails s moduleType name version).1 = t := by
    rw [failed]
  by_cases commits : Commits s.store fails moduleType name version
  · obtain ⟨m, found, store⟩ := activateModule_committed commits
    rw [← after, store, activeVersion_replaced found]
    constructor
    · exact fun same => Or.inr same.symm
    · intro either
      exact (either.resolve_left fun early => early commits).symm
  · obtain ⟨_, unchanged⟩ := activateModule_uncommitted commits
    rw [← after, unchanged]
    exact ⟨fun _ => Or.inl commits, fun _ => rfl⟩

end errors

section sample

def damaged : ModuleStoreActor :=
  ⟨alterBytes (fun m => if m.version = release 1 1 0 then otherBytes else m.wasmBytes) helloStore,
    []⟩

/-- The activation of the damaged version is refused, and the version is active. -/
theorem refused_version_is_active :
    (∃ t text, activateModule sampleDigest false .never damaged .command "hello" (release 1 1 0) =
        (t, .error (.integrity text)) ∧
      activeVersion t.store .command "hello" = some (release 1 1 0)) ∧
    activeVersion damaged.store .command "hello" = some (release 1 0 0) := by
  refine ⟨⟨_, _, rfl, ?_⟩, ?_⟩
  · decide +kernel
  · decide +kernel

theorem unknown_version_keeps_active :
    activeVersion (activateModule sampleDigest false .never damaged .command "hello"
      (release 2 0 0)).1.store .command "hello" = activeVersion damaged.store .command "hello" := by
  have failed : ∃ err, activateModule sampleDigest false .never damaged .command "hello"
      (release 2 0 0) = ((activateModule sampleDigest false .never damaged .command "hello"
        (release 2 0 0)).1, .error err) :=
    ⟨.moduleNotFound .command "hello" (release 2 0 0), rfl⟩
  apply (failed_activation_keeps_version_iff failed).mpr
  apply Or.inl
  intro commits
  obtain ⟨_, m, found⟩ := commits
  have absent : damaged.store.modules.find
      (ModuleRow.isVersion .command "hello" (release 2 0 0)) = none := by decide +kernel
  exact absurd (absent.symm.trans found) (by simp)

end sample

end UmariActivationErrors
