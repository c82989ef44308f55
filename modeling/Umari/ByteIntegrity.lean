import Umari.PublishedModules

/-!
The bytes of modules as the store hands them out. One of three queries compares them
with the digest that was stored when the version was saved; the two that read what is
active do not.
-/
namespace UmariByteIntegrity
open FallibleFolds GuardedRuns UniqueTables UmariStateDatabases UmariModuleEvents UmariModuleStore
open UmariStoreReferences
open UmariPublishedModules (Active Intact mem_joined active_listed intact_changed)

/-- The column `wasm_bytes` rewritten on disk; no constraint is about it. -/
def alterBytes (alter : ModuleRow → List UInt8) (s : Store) : Store :=
  { s with modules :=
    { rows := s.modules.rows.map fun m => { m with wasmBytes := alter m }
      unique := List.pairwise_map.mpr (s.modules.unique.imp fun free clash => free clash) } }

def Checked (digest : List UInt8 → String) (saved : Store) (moduleType : ModuleType)
    (name : String) (version : Version) (wasmBytes : List UInt8) : Prop :=
  (saved.modules.find (ModuleRow.isVersion moduleType name version)).map (·.sha256) =
    some (digest wasmBytes)

/-- Every query that returns the bytes of a version returns those that were saved, as far as
    the digest tells, and the check reports the others. -/
structure Verified (digest : List UInt8 → String) (saved s : Store) : Prop where
  loaded : ∀ moduleType name version failed wasmBytes sha256,
    loadModule digest s moduleType name version failed = .ok (some (wasmBytes, sha256)) →
      Checked digest saved moduleType name version wasmBytes
  refused : ∀ moduleType name version m,
    s.modules.find (ModuleRow.isVersion moduleType name version) = some m →
      m.sha256 ≠ digest m.wasmBytes →
        ∃ text, loadModule digest s moduleType name version false = .error (.integrity text)
  active : ∀ moduleType name version wasmBytes,
    getActiveModule s moduleType name = some (version, wasmBytes) →
      Checked digest saved moduleType name version wasmBytes
  listed : ∀ moduleType, ∀ m ∈ getAllActiveModules s moduleType,
    Checked digest saved m.moduleType m.name m.version m.wasmBytes

section queries
variable {digest : List UInt8 → String} {s saved : Store} {alter : ModuleRow → List UInt8}
  {moduleType : ModuleType} {name : String} {version : Version}

theorem mem_altered {m : ModuleRow} : m ∈ (alterBytes alter s).modules ↔
    ∃ old ∈ s.modules, { old with wasmBytes := alter old } = m := List.mem_map

theorem found_version {modules : Table ModuleRow.Clash} {m : ModuleRow} :
    modules.find (ModuleRow.isVersion moduleType name version) = some m ↔
      m ∈ modules ∧ m.moduleType = moduleType ∧ m.name = name ∧ m.version = version := by
  rw [Table.find_iff, isVersion_iff]
  intro a b left right
  obtain ⟨rfl, rfl, rfl⟩ := isVersion_iff.mp left
  obtain ⟨ty, named, same⟩ := isVersion_iff.mp right
  exact Or.inr ⟨ty.symm, named.symm, same.symm⟩

theorem checked_iff {m : ModuleRow} (member : m ∈ saved.modules) {wasmBytes : List UInt8} :
    Checked digest saved m.moduleType m.name m.version wasmBytes ↔
      m.sha256 = digest wasmBytes := by
  have found : saved.modules.find (ModuleRow.isVersion m.moduleType m.name m.version) = some m :=
    found_version.mpr ⟨member, rfl, rfl, rfl⟩
  rw [Checked, found, Option.map_some, Option.some.injEq]

theorem loadModule_checked {failed : Bool} {wasmBytes : List UInt8} {sha256 : String}
    (loaded : loadModule digest s moduleType name version failed =
      .ok (some (wasmBytes, sha256))) :
    ∃ m, s.modules.find (ModuleRow.isVersion moduleType name version) = some m ∧
      m.wasmBytes = wasmBytes ∧ m.sha256 = digest wasmBytes := by
  unfold loadModule at loaded
  obtain ⟨row, read, rest⟩ := do_ok.mp loaded
  obtain ⟨_, found⟩ := attempt_ok.mp read
  cases row with
  | none => exact absurd rest (by simp)
  | some m =>
    dsimp only at rest
    by_cases whole : m.sha256 = digest m.wasmBytes
    · rw [if_pos whole] at rest
      obtain ⟨rfl, rfl⟩ := Prod.mk.inj (Option.some.inj (Except.ok.inj rest))
      exact ⟨m, Except.ok.inj found, rfl, whole⟩
    · rw [if_neg whole] at rest
      exact absurd rest (by simp)

theorem loadModule_refused {m : ModuleRow}
    (found : s.modules.find (ModuleRow.isVersion moduleType name version) = some m)
    (altered : m.sha256 ≠ digest m.wasmBytes) :
    ∃ text, loadModule digest s moduleType name version false = .error (.integrity text) := by
  refine ⟨"sha256 mismatch: expected " ++ digest m.wasmBytes ++ ", got " ++ m.sha256, ?_⟩
  rw [loadModule, found]
  exact if_neg altered

theorem getActiveModule_active {value : Version × List UInt8}
    (found : getActiveModule s moduleType name = some value) :
    Active s moduleType name value := by
  obtain ⟨pair, here, rfl⟩ := Option.map_eq_some_iff.mp found
  obtain ⟨live, there, id⟩ := mem_joined.mp (List.mem_of_find?_eq_some here)
  have own := List.find?_some here
  obtain ⟨ty, named⟩ := isNamed_iff.mp own
  exact ⟨pair.1, live, pair.2, there, id, ty, named, rfl⟩

theorem listed_active {filter : Option ModuleType} {m : Module}
    (listed : m ∈ getAllActiveModules s filter) :
    Active s m.moduleType m.name (m.version, m.wasmBytes) := by
  obtain ⟨pair, here, rfl⟩ := List.mem_map.mp listed
  obtain ⟨live, there, id⟩ := mem_joined.mp (List.mem_filter.mp here).1
  exact ⟨pair.1, live, pair.2, there, id, rfl, rfl, rfl⟩

theorem active_checked (referenced : Referenced saved)
    (whole : ∀ a ∈ saved.activeModules, ∀ m ∈ saved.modules, a.moduleId = m.id →
      m.sha256 = digest (alter m)) {wasmBytes : List UInt8}
    (active : Active (alterBytes alter saved) moduleType name (version, wasmBytes)) :
    Checked digest saved moduleType name version wasmBytes := by
  obtain ⟨a, live, m, there, id, rfl, rfl, same⟩ := active
  obtain ⟨old, member, rfl⟩ := mem_altered.mp there
  obtain ⟨rfl, rfl⟩ := Prod.mk.inj same
  obtain ⟨owner, present, own, ty, named⟩ := referenced.refers a live
  obtain rfl := module_unique present member (own.trans id)
  rw [← ty, ← named]
  exact (checked_iff present).mpr (whole a live owner present id)

theorem verified_iff (referenced : Referenced saved) (intact : Intact digest saved) :
    Verified digest saved (alterBytes alter saved) ↔
      ∀ a ∈ saved.activeModules, ∀ m ∈ saved.modules, a.moduleId = m.id →
        digest (alter m) = digest m.wasmBytes := by
  constructor
  · intro verified a live m member id
    obtain ⟨owner, present, own, ty, named⟩ := referenced.refers a live
    obtain rfl := module_unique present member (own.trans id)
    have active :
        Active (alterBytes alter saved) a.moduleType a.name (owner.version, alter owner) :=
      ⟨a, live, _, mem_altered.mpr ⟨owner, present, rfl⟩, id, rfl, rfl, rfl⟩
    obtain ⟨entry, listed, entryType, entryName, entryVersion, bytes⟩ := active_listed.mp active
    have checked := verified.listed none entry listed
    rw [entryType, entryName, entryVersion, bytes, ← ty, ← named, checked_iff present] at checked
    exact checked.symm.trans (intact owner present)
  · intro whole
    have stored : ∀ a ∈ saved.activeModules, ∀ m ∈ saved.modules, a.moduleId = m.id →
        m.sha256 = digest (alter m) := by
      intro a live m member id
      rw [whole a live m member id]
      exact intact m member
    constructor
    · intro moduleType name version failed wasmBytes sha256 loaded
      obtain ⟨m, found, rfl, check⟩ := loadModule_checked loaded
      obtain ⟨there, rfl, rfl, rfl⟩ := found_version.mp found
      obtain ⟨old, member, rfl⟩ := mem_altered.mp there
      exact (checked_iff member).mpr check
    · intro moduleType name version m found altered
      exact loadModule_refused found altered
    · intro moduleType name version wasmBytes found
      exact active_checked referenced stored (getActiveModule_active found)
    · intro moduleType m listed
      exact active_checked referenced stored (listed_active listed)

theorem intact_init : Intact digest init := fun _ member => absurd member Table.not_mem_empty

theorem intact_step {t : Store} {operation : Operation} (intact : Intact digest s)
    (taken : step digest s operation = some t) : Intact digest t := by
  obtain rfl := Option.some.inj taken
  exact intact_changed intact (call_changed digest s operation)

end queries

/-- After any sequence of calls and any alteration of the stored bytes, the three queries
    all return verified bytes exactly when no active version's bytes have another digest. -/
theorem queries_verified_iff_active_unaltered (digest : List UInt8 → String)
    (operations : List Operation) {saved : Store}
    (run : exec (step digest) init operations = some saved) (alter : ModuleRow → List UInt8) :
    Verified digest saved (alterBytes alter saved) ↔
      ∀ a ∈ saved.activeModules, ∀ m ∈ saved.modules, a.moduleId = m.id →
        digest (alter m) = digest m.wasmBytes := by
  have referenced : Referenced saved :=
    invariant (fun held taken => (safe_step held taken).1) referenced_init run
  have intact : Intact digest saved :=
    invariant (fun held taken => intact_step held taken) intact_init run
  exact verified_iff referenced intact

section sample

def wholeBytes : List UInt8 := [1, 2, 69, 255]

def otherBytes : List UInt8 := [1, 2, 68, 255]

def sampleDigest (wasmBytes : List UInt8) : String :=
  if wasmBytes = wholeBytes then "a1f348190fdbbfb4cfacc84a4e036c56384b95c658d0ce0da46b43e179ccf53f"
  else "e65304df5618518900f145aa63ede714082d7f0c9b66feccbd25d46daad1709c"

def twoVersions : List Operation :=
  [.saveModule .never .command "hello" (release 1 0 0) 1 [] wholeBytes,
    .saveModule .never .command "hello" (release 1 1 0) 2 [] wholeBytes,
    .activateModule .never .command "hello" (release 1 0 0)]

def helloStore : Store := (exec (step sampleDigest) init twoVersions).getD init

theorem hello_run : exec (step sampleDigest) init twoVersions = some helloStore := rfl

/-- The bytes that startup and reset read are those on disk, whatever was uploaded. -/
theorem altered_active_bytes_returned :
    exec (step sampleDigest) init twoVersions = some helloStore ∧
      getActiveModule (alterBytes (fun _ => otherBytes) helloStore) .command "hello" =
        some (release 1 0 0, otherBytes) ∧
      ¬ Verified sampleDigest helloStore (alterBytes (fun _ => otherBytes) helloStore) := by
  have active : getActiveModule (alterBytes (fun _ => otherBytes) helloStore) .command "hello" =
      some (release 1 0 0, otherBytes) := by decide +kernel
  refine ⟨hello_run, active, ?_⟩
  intro verified
  have checked := verified.active .command "hello" (release 1 0 0) otherBytes active
  have differs : (helloStore.modules.find
      (ModuleRow.isVersion .command "hello" (release 1 0 0))).map (·.sha256) ≠
        some (sampleDigest otherBytes) := by decide +kernel
  exact differs checked

/-- Altered bytes of a version that is not active are caught. -/
theorem altered_idle_bytes_caught :
    Verified sampleDigest helloStore (alterBytes
      (fun m => if m.version = release 1 1 0 then otherBytes else m.wasmBytes) helloStore) := by
  apply (queries_verified_iff_active_unaltered sampleDigest twoVersions hello_run _).mpr
  have rows : ∀ a ∈ helloStore.activeModules.rows, ∀ m ∈ helloStore.modules.rows,
      a.moduleId = m.id → sampleDigest (if m.version = release 1 1 0 then otherBytes
        else m.wasmBytes) = sampleDigest m.wasmBytes := by decide +kernel
  exact rows

end sample

end UmariByteIntegrity
