import Umari.CliBuilds
import Umari.UploadBodies

/-!
The upload phase of the CLI against one module store. A worker's upload is a request that the
server answers after a save and an activation; between them, and between the two requests of
an upload that bumps the version, the requests of the other workers take their turns.
-/
namespace UmariCliUploads
open GuardedRuns KeyedMaps UniqueTables WorkQueues UmariStateDatabases
open UmariModuleStore UmariSavedModules UmariActivationErrors UmariUploads UmariUploadBodies
open UmariPublishedModules (ModuleStoreActor mem_joined)
open UmariStoreReferences (module_unique)
open UmariByteIntegrity (found_version)
open UmariCliBuilds (AnyModule Counters Key NpmOutcome Row Stats Status buildOneJs firstLine
  noStats tally tally_append)

def serverType : UmariCliBuilds.ModuleType → UmariModuleEvents.ModuleType
  | .commands => .command
  | .effects => .effect
  | .projectors => .projector

section server
variable (texts : Texts) (digest : List UInt8 → String)

def saveRequest (s : ModuleStoreActor) (request : Request) (lost : Option String)
    (fails : Failures) (id : Int) : ModuleStoreActor × Except ApiError (Nat × Parsed) :=
  match parseRequest texts request with
  | .error err => (s, .error err)
  | .ok parsed =>
    match lost with
    | some text => (s, .error ⟨.internal, text⟩)
    | none =>
      let (store, saved) := saveModule digest s.store fails request.moduleType request.name
        parsed.version id (pairs parsed.envVars) parsed.wasmBytes
      let s := { s with store := store }
      match saved with
      | .ok () => (s, .ok (201, parsed))
      | .error .moduleExistsWithSameHash => (s, .ok (200, parsed))
      | .error err => (s, .error (storeError texts err))

def finishRequest (s : ModuleStoreActor) (request : Request) (environment : Environment)
    (status : Nat) (parsed : Parsed) :
    ModuleStoreActor × Except ApiError (Nat × UploadResponse) :=
  let (s, activated) := activateIfAsked texts digest s request environment parsed.version
  (s, activated.map fun _ => (status, {
    moduleType := moduleTypeText request.moduleType
    name := request.name
    version := texts.versionText parsed.version
    sha256 := digest parsed.wasmBytes
    activated := request.activate }))

theorem uploadModule_parts (s : ModuleStoreActor) (request : Request) (environment : Environment) :
    uploadModule texts digest s request environment =
      match saveRequest texts digest s request environment.saveLost environment.saveFails
        environment.id with
      | (s, .error err) => (s, .error err)
      | (s, .ok (status, parsed)) =>
        finishRequest texts digest s request environment status parsed := by
  unfold uploadModule saveRequest finishRequest
  cases parseRequest texts request with
  | error err => rfl
  | ok parsed =>
    dsimp only
    cases environment.saveLost with
    | some text => rfl
    | none =>
      dsimp only
      generalize saveModule digest s.store environment.saveFails request.moduleType request.name
        parsed.version environment.id (pairs parsed.envVars) parsed.wasmBytes = saved
      obtain ⟨store, result⟩ := saved
      cases result with
      | ok done => rfl
      | error err => cases err <;> rfl

end server

/-- What `upload_wasm` makes of the server's answer; a conflict is no error. -/
def clientAnswer : Except ApiError (Nat × UploadResponse) → Except String (Option Bool)
  | .error err => if err.code = .duplicate then .ok none else .error err.message
  | .ok (status, _) => .ok (some (status == 200))

structure Setting where
  texts : Texts
  digest : List UInt8 → String
  text : List UInt8 → Option String
  noActivate : Bool
  bumpPatch : Bool

def requestOf (setting : Setting) (m : AnyModule) (version : String) (wasmBytes : List UInt8) :
    Request where
  moduleType := serverType m.moduleType
  name := m.name
  version := version
  activate := !setting.noActivate
  fields := uploadFields setting.text (uploadWasm m.envVars wasmBytes)

def bumpPatchVersion (texts : Texts) (version : String) : Option String :=
  (texts.parseVersion version).map fun v => texts.versionText { v with patch := v.patch + 1 }

def buildRust : NpmOutcome → Except String Unit
  | .error err => .error ("failed to run cargo build: " ++ err)
  | .ok (success, stderr) => if success then .ok () else .error (firstLine stderr)

def rebuildModule : AnyModule → NpmOutcome → Except String Unit
  | .rust _, outcome => buildRust outcome
  | .js _, outcome => buildOneJs outcome

/-- Where `upload_one` stands; `bumped` says that this is its second request. -/
inductive Stage where
  | sending (version : String) (bumped : Bool)
  | saving (version : String) (wasmBytes : List UInt8) (bumped : Bool)
  | activating (version : String) (wasmBytes : List UInt8) (bumped : Bool) (status : Nat)
      (parsed : Parsed)
  | answered (version : String) (wasmBytes : List UInt8) (bumped : Bool)
      (answer : Except ApiError (Nat × UploadResponse))
  | bumping

/-- One turn, with what the disk, the network and the server's database decide in it. -/
inductive UploadAction where
  | send (present : Bool) (file : Option (List UInt8))
  | refuse (message : String)
  | save (lost : Option String) (fails : Failures) (id : Int)
  | activate (lost : Option String) (fails : Failures) (sendFails : Bool)
  | receive (lost : Option String)
  | bump (written : Except String Unit) (rebuilt : NpmOutcome)

structure Uploading where
  server : ModuleStoreActor
  stats : Counters
  shown : List Row
  requests : List (AnyModule × String × List UInt8)

def Uploading.finished (w : Uploading) (m : AnyModule) (status : Status) : Uploading :=
  { w with
    stats := w.stats.count m.moduleType status
    shown := w.shown ++ [(m.key, status)] }

def Uploading.finish (w : Uploading) (m : AnyModule) (status : Status) :
    Option (Uploading × (Stage ⊕ Status)) :=
  some (w.finished m status, .inr status)

def judge (setting : Setting) (m : AnyModule) (version : String) (bumped : Bool) :
    Except String (Option Bool) → Option Status
  | .error message => some (.failed message)
  | .ok (some idempotent) =>
    if bumped then some (.bumped m.version version)
    else some (if idempotent then .unchanged else .deployed)
  | .ok none =>
    if bumped then some (.failed "module already exists after bump")
    else if setting.bumpPatch then none
    else some (.failed "module already exists")

def uploadOne (setting : Setting) (w : Uploading) (m : AnyModule) :
    Stage → UploadAction → Option (Uploading × (Stage ⊕ Status))
  | .sending version bumped, .send present file =>
    if !bumped && !present then w.finish m (.failed ("wasm file missing: " ++ m.wasmPath))
    else
      match file with
      | none => w.finish m (.failed ("failed to read file: " ++ m.wasmPath))
      | some wasmBytes => some ({ w with requests := (m, version, wasmBytes) :: w.requests },
          .inl (.saving version wasmBytes bumped))
  -- the connection fails, or the request does not get as far as the route
  | .saving _ _ _, .refuse message => w.finish m (.failed message)
  | .saving version wasmBytes bumped, .save lost fails id =>
    match saveRequest setting.texts setting.digest w.server
      (requestOf setting m version wasmBytes) lost fails id with
    | (server, .error err) =>
      some ({ w with server := server }, .inl (.answered version wasmBytes bumped (.error err)))
    | (server, .ok (status, parsed)) =>
      some ({ w with server := server },
        .inl (.activating version wasmBytes bumped status parsed))
  | .activating version wasmBytes bumped status parsed, .activate lost fails sendFails =>
    let (server, answer) := finishRequest setting.texts setting.digest w.server
      (requestOf setting m version wasmBytes) ⟨none, .never, 0, lost, fails, sendFails⟩
      status parsed
    some ({ w with server := server }, .inl (.answered version wasmBytes bumped answer))
  | .answered version _ bumped answer, .receive lost =>
    match lost with
    | some message => w.finish m (.failed message)
    | none =>
      match judge setting m version bumped (clientAnswer answer) with
      | some status => w.finish m status
      | none => some (w, .inl .bumping)
  | .bumping, .bump written rebuilt =>
    match bumpPatchVersion setting.texts m.version with
    | none => w.finish m (.failed "invalid semver version")
    | some new =>
      match written, rebuildModule m rebuilt with
      | .error message, _ => w.finish m (.failed message)
      | .ok (), .error message => w.finish m (.failed message)
      | .ok (), .ok () => some (w, .inl (.sending new true))
  | _, _ => none

def uploadWork (setting : Setting) :
    Work Uploading AnyModule Stage Status UploadAction Empty where
  enter := fun m => .sending m.version false
  advance := uploadOne setting
  other := fun _ event => event.elim

abbrev UploadState := WorkQueues.State Uploading AnyModule Stage Status

abbrev UploadTurn := Turn UploadAction Empty

def uploadStart (server : ModuleStoreActor) (modules : List AnyModule) (workers : Nat) :
    UploadState :=
  WorkQueues.start ⟨server, noStats, [], []⟩ modules workers

section stores
variable {texts : Texts} {digest : List UInt8 → String} {store after : Store}
  {moduleType : UmariModuleEvents.ModuleType} {name hash : String} {version : Version}

theorem storedHash_iff : storedHash store moduleType name version = some hash ↔
    ∃ m ∈ store.modules, (m.moduleType = moduleType ∧ m.name = name ∧ m.version = version) ∧
      m.sha256 = hash := by
  unfold storedHash
  rw [Option.map_eq_some_iff]
  constructor
  · intro found
    obtain ⟨m, found, same⟩ := found
    obtain ⟨member, named⟩ := found_version.mp found
    exact ⟨m, member, named, same⟩
  · intro stored
    obtain ⟨m, member, named, same⟩ := stored
    exact ⟨m, found_version.mpr ⟨member, named⟩, same⟩

theorem activeVersion_iff : activeVersion store moduleType name = some version ↔
    ∃ a ∈ store.activeModules, ∃ m ∈ store.modules, a.moduleId = m.id ∧
      (a.moduleType = moduleType ∧ a.name = name) ∧ m.version = version := by
  unfold activeVersion getActiveModule
  constructor
  · intro active
    simp only [Option.map_map, Option.map_eq_some_iff, Function.comp_apply] at active
    obtain ⟨⟨a, m⟩, found, same⟩ := active
    obtain ⟨live, there, id⟩ := mem_joined.mp (List.mem_of_find?_eq_some found)
    have own := List.find?_some found
    have named := isNamed_iff.mp own
    exact ⟨a, live, m, there, id, named, same⟩
  · intro active
    obtain ⟨a, live, m, there, id, named, same⟩ := active
    have listed : (a, m) ∈ joined store := mem_joined.mpr ⟨live, there, id⟩
    cases found : (joined store).find? fun pair => pair.1.isNamed moduleType name with
    | none => exact absurd (isNamed_iff.mpr named) (List.find?_eq_none.mp found _ listed)
    | some pair =>
      obtain ⟨live', there', id'⟩ := mem_joined.mp (List.mem_of_find?_eq_some found)
      have own := List.find?_some found
      have named' := isNamed_iff.mp own
      obtain rfl : pair.1 = a :=
        Table.eq_of_clash live' live ⟨named'.1.trans named.1.symm, named'.2.trans named.2.symm⟩
      obtain rfl : pair.2 = m := module_unique there' there (id'.symm.trans id)
      simp [same]

variable {before : Store} {request : Request} {id : Int} {parsed : Parsed}

theorem saves_keep (saves : Saves digest before request id parsed after) :
    (∀ m ∈ before.modules, m ∈ after.modules) ∧
      ∀ a ∈ before.activeModules, a ∈ after.activeModules := by
  cases saves with
  | fresh modules inserted =>
    exact ⟨fun m member => ((Table.insert_some inserted).1 m).mpr (Or.inl member),
      fun a live => live⟩
  | duplicate stored => exact ⟨fun m member => member, fun a live => live⟩

theorem saves_stored (saves : Saves digest before request id parsed after) :
    storedHash after request.moduleType request.name parsed.version =
      some (digest parsed.wasmBytes) := by
  cases saves with
  | fresh modules inserted =>
    apply storedHash_iff.mpr
    exact ⟨_, ((Table.insert_some inserted).1 _).mpr (Or.inr rfl), ⟨rfl, rfl, rfl⟩, rfl⟩
  | duplicate stored => exact stored

theorem storedHash_grown (kept : ∀ m ∈ before.modules, m ∈ after.modules)
    (stored : storedHash before moduleType name version = some hash) :
    storedHash after moduleType name version = some hash := by
  obtain ⟨m, member, named, same⟩ := storedHash_iff.mp stored
  exact storedHash_iff.mpr ⟨m, kept m member, named, same⟩

theorem saveRequest_cases {s t : ModuleStoreActor} {lost : Option String} {fails : Failures}
    {answer : Except ApiError (Nat × Parsed)}
    (saved : saveRequest texts digest s request lost fails id = (t, answer)) :
    ((∃ err, answer = .error err) ∧ ∃ settings, t.store = { s.store with envVars := settings }) ∨
      ∃ status parsed, answer = .ok (status, parsed) ∧
        parseRequest texts request = .ok parsed ∧
        Saves digest s.store request id parsed t.store := by
  unfold saveRequest at saved
  cases parsing : parseRequest texts request with
  | error err =>
    simp only [parsing, Prod.mk.injEq] at saved
    obtain ⟨rfl, rfl⟩ := saved
    exact Or.inl ⟨⟨err, rfl⟩, _, rfl⟩
  | ok parsed =>
    simp only [parsing] at saved
    cases lost with
    | some text =>
      simp only [Prod.mk.injEq] at saved
      obtain ⟨rfl, rfl⟩ := saved
      exact Or.inl ⟨⟨_, rfl⟩, _, rfl⟩
    | none =>
      dsimp only at saved
      have outcome : Outcome digest s.store fails request.moduleType request.name parsed.version id
          (pairs parsed.envVars) parsed.wasmBytes (saveModule digest s.store fails
            request.moduleType request.name parsed.version id (pairs parsed.envVars)
            parsed.wasmBytes) := saveModule_outcome
      generalize saveModule digest s.store fails request.moduleType request.name parsed.version id
        (pairs parsed.envVars) parsed.wasmBytes = result at outcome saved
      cases outcome with
      | saved modules inserted =>
        simp only [Prod.mk.injEq] at saved
        obtain ⟨rfl, rfl⟩ := saved
        exact Or.inr ⟨201, parsed, rfl, rfl, Saves.fresh modules inserted⟩
      | sameHash _ _ stored =>
        simp only [Prod.mk.injEq] at saved
        obtain ⟨rfl, rfl⟩ := saved
        exact Or.inr ⟨200, parsed, rfl, rfl, Saves.duplicate stored⟩
      | failed err other | undone err other =>
        cases err with
        | moduleExistsWithSameHash => exact absurd rfl other
        | _ =>
          simp only [Prod.mk.injEq] at saved
          obtain ⟨rfl, rfl⟩ := saved
          exact Or.inl ⟨⟨_, rfl⟩, _, rfl⟩

theorem finishRequest_keeps {s t : ModuleStoreActor} {environment : Environment} {status : Nat}
    {answer : Except ApiError (Nat × UploadResponse)}
    (finished : finishRequest texts digest s request environment status parsed = (t, answer)) :
    t.store.modules = s.store.modules ∧ ∀ moduleType name version,
      ¬ (request.moduleType = moduleType ∧ request.name = name) →
        activeVersion s.store moduleType name = some version →
          activeVersion t.store moduleType name = some version := by
  unfold finishRequest at finished
  simp only [Prod.mk.injEq] at finished
  obtain ⟨rfl, -⟩ := finished
  rcases activateIfAsked_store texts digest s request environment parsed.version with
    ⟨same, -⟩ | ⟨-, m, -, set⟩
  · rw [same]
    exact ⟨rfl, fun _ _ _ _ active => active⟩
  · rw [set]
    refine ⟨rfl, fun moduleType name version apart active => ?_⟩
    obtain ⟨a, live, m', there, refers, named, same⟩ := activeVersion_iff.mp active
    refine activeVersion_iff.mpr ⟨a, ?_, m', there, refers, named, same⟩
    refine Table.mem_replace.mpr (Or.inl ⟨live, fun clash => apart ?_⟩)
    exact ⟨clash.1.symm.trans named.1, clash.2.symm.trans named.2⟩

theorem finishRequest_active {s t : ModuleStoreActor} {environment : Environment} {status : Nat}
    {answer : Nat × UploadResponse}
    (finished : finishRequest texts digest s request environment status parsed = (t, .ok answer))
    (asked : request.activate = true) :
    activeVersion t.store request.moduleType request.name = some parsed.version := by
  unfold finishRequest at finished
  simp only [Prod.mk.injEq] at finished
  obtain ⟨rfl, answered⟩ := finished
  obtain ⟨done, -⟩ := (FallibleFolds.mapped_ok.mp answered).choose_spec
  rcases activateIfAsked_store texts digest s request environment parsed.version with
    ⟨-, unasked⟩ | ⟨-, m, found, set⟩
  · exact absurd (asked.symm.trans (unasked done)) (by simp)
  · rw [set]
    exact activeVersion_replaced found

end stores

section turns
variable {setting : Setting} {w w' : Uploading} {m : AnyModule}

inductive Turned (setting : Setting) (w : Uploading) (m : AnyModule) :
    Stage → Uploading → Stage ⊕ Status → Prop where
  | sent (version : String) (bumped : Bool) (wasmBytes : List UInt8) :
      Turned setting w m (.sending version bumped)
        { w with requests := (m, version, wasmBytes) :: w.requests }
        (.inl (.saving version wasmBytes bumped))
  | refused (version : String) (wasmBytes : List UInt8) (bumped : Bool) (err : ApiError)
      (server : ModuleStoreActor) (settings : Table EnvVarRow.Clash)
      (same : server.store = { w.server.store with envVars := settings }) :
      Turned setting w m (.saving version wasmBytes bumped) { w with server := server }
        (.inl (.answered version wasmBytes bumped (.error err)))
  | saved (version : String) (wasmBytes : List UInt8) (bumped : Bool) (status : Nat)
      (parsed : Parsed) (server : ModuleStoreActor) (id : Int)
      (parse : parseRequest setting.texts (requestOf setting m version wasmBytes) = .ok parsed)
      (saves : Saves setting.digest w.server.store (requestOf setting m version wasmBytes) id
        parsed server.store) :
      Turned setting w m (.saving version wasmBytes bumped) { w with server := server }
        (.inl (.activating version wasmBytes bumped status parsed))
  | activated (version : String) (wasmBytes : List UInt8) (bumped : Bool) (status : Nat)
      (parsed : Parsed) (server : ModuleStoreActor) (environment : Environment)
      (answer : Except ApiError (Nat × UploadResponse))
      (finished : finishRequest setting.texts setting.digest w.server
        (requestOf setting m version wasmBytes) environment status parsed = (server, answer)) :
      Turned setting w m (.activating version wasmBytes bumped status parsed)
        { w with server := server } (.inl (.answered version wasmBytes bumped answer))
  | judged (version : String) (wasmBytes : List UInt8) (bumped : Bool)
      (answer : Except ApiError (Nat × UploadResponse)) (status : Status)
      (judges : judge setting m version bumped (clientAnswer answer) = some status) :
      Turned setting w m (.answered version wasmBytes bumped answer) (w.finished m status)
        (.inr status)
  | bumps (version : String) (wasmBytes : List UInt8) (bumped : Bool)
      (answer : Except ApiError (Nat × UploadResponse)) (asked : setting.bumpPatch = true) :
      Turned setting w m (.answered version wasmBytes bumped answer) w (.inl .bumping)
  | rebuilt (new : String) (next : bumpPatchVersion setting.texts m.version = some new) :
      Turned setting w m .bumping w (.inl (.sending new true))
  | failed (stage : Stage) (message : String) :
      Turned setting w m stage (w.finished m (.failed message)) (.inr (.failed message))

theorem judge_none {version : String} {bumped : Bool} {answer : Except String (Option Bool)}
    (judges : judge setting m version bumped answer = none) : setting.bumpPatch = true := by
  unfold judge at judges
  split at judges
  · exact absurd judges (by simp)
  · split at judges <;> exact absurd judges (by simp)
  · split at judges
    · exact absurd judges (by simp)
    · split at judges
      · assumption
      · exact absurd judges (by simp)

theorem turned_of_step {stage : Stage} {action : UploadAction} {next : Stage ⊕ Status}
    (taken : uploadOne setting w m stage action = some (w', next)) :
    Turned setting w m stage w' next := by
  unfold uploadOne at taken
  split at taken
  · rename_i version bumped present file
    split at taken
    · cases taken
      exact Turned.failed _ _
    · split at taken
      · cases taken
        exact Turned.failed _ _
      · cases taken
        exact Turned.sent version bumped _
  · cases taken
    exact Turned.failed _ _
  · rename_i version wasmBytes bumped lost fails id
    split at taken
    · rename_i server err saved
      cases taken
      rcases saveRequest_cases saved with ⟨-, settings, same⟩ | ⟨_, _, answer, -⟩
      · exact Turned.refused version wasmBytes bumped err server settings same
      · exact absurd answer (by simp)
    · rename_i server status parsed saved
      cases taken
      rcases saveRequest_cases saved with ⟨⟨_, answer⟩, -⟩ | ⟨_, _, answer, parse, saves⟩
      · exact absurd answer (by simp)
      · obtain ⟨rfl, rfl⟩ := Prod.mk.inj (Except.ok.inj answer)
        exact Turned.saved version wasmBytes bumped status parsed server id parse saves
  · rename_i version wasmBytes bumped status parsed lost fails sendFails
    cases taken
    exact Turned.activated version wasmBytes bumped status parsed _ _ _ rfl
  · rename_i version wasmBytes bumped answer lost
    split at taken
    · cases taken
      exact Turned.failed _ _
    · split at taken
      · rename_i status judges
        cases taken
        exact Turned.judged version wasmBytes bumped answer status judges
      · rename_i judges
        cases taken
        exact Turned.bumps version wasmBytes bumped answer (judge_none judges)
  · split at taken
    · cases taken
      exact Turned.failed _ _
    · rename_i new next
      split at taken
      · cases taken
        exact Turned.failed _ _
      · cases taken
        exact Turned.failed _ _
      · cases taken
        exact Turned.rebuilt new next
  · exact absurd taken (by simp)

end turns

section outline
variable {setting : Setting} {w w' : Uploading} {m i : AnyModule} {version : String}
  {wasmBytes : List UInt8} {bumped : Bool}

/-- The version an upload may be for: that of the manifest, or once that is taken the next. -/
def Own (setting : Setting) (m : AnyModule) (version : String) (bumped : Bool) : Prop :=
  if bumped then setting.bumpPatch = true ∧ bumpPatchVersion setting.texts m.version = some version
  else version = m.version

/-- The store has the version with the hash of the bytes that reached it, and unless the flag
    says otherwise it is the active one. -/
def InPlace (setting : Setting) (store : Store) (m : AnyModule) (version : String)
    (wasmBytes : List UInt8) : Prop :=
  ∃ parsed, parseRequest setting.texts (requestOf setting m version wasmBytes) = .ok parsed ∧
    storedHash store (serverType m.moduleType) m.name parsed.version =
      some (setting.digest parsed.wasmBytes) ∧
    (setting.noActivate = false →
      activeVersion store (serverType m.moduleType) m.name = some parsed.version)

def shownVersion (m : AnyModule) : Status → String
  | .bumped _ new => new
  | _ => m.version

def Holds (setting : Setting) (w : Uploading) (m : AnyModule) : Option Stage → Prop
  | none => True
  | some (.sending version bumped) => Own setting m version bumped
  | some (.saving version wasmBytes bumped) =>
    Own setting m version bumped ∧ (m, version, wasmBytes) ∈ w.requests
  | some (.activating version wasmBytes bumped _ parsed) =>
    Own setting m version bumped ∧ (m, version, wasmBytes) ∈ w.requests ∧
      parseRequest setting.texts (requestOf setting m version wasmBytes) = .ok parsed ∧
      storedHash w.server.store (serverType m.moduleType) m.name parsed.version =
        some (setting.digest parsed.wasmBytes)
  | some (.answered version wasmBytes bumped answer) =>
    Own setting m version bumped ∧ (m, version, wasmBytes) ∈ w.requests ∧
      ((∃ done, answer = .ok done) → InPlace setting w.server.store m version wasmBytes)
  | some .bumping => setting.bumpPatch = true

/-- What a finished upload leaves: a status of success is the truth about the store. -/
def Leaves (setting : Setting) (w : Uploading) (m : AnyModule) (status : Status) : Prop :=
  status.isFailed = false → ∃ wasmBytes bumped,
    Own setting m (shownVersion m status) bumped ∧
      (m, shownVersion m status, wasmBytes) ∈ w.requests ∧
      InPlace setting w.server.store m (shownVersion m status) wasmBytes

structure Frame (w w' : Uploading) (i : AnyModule) : Prop where
  requests : ∀ r ∈ w.requests, r ∈ w'.requests
  modules : ∀ row ∈ w.server.store.modules, row ∈ w'.server.store.modules
  active : ∀ version,
    activeVersion w.server.store (serverType i.moduleType) i.name = some version →
      activeVersion w'.server.store (serverType i.moduleType) i.name = some version

theorem serverType_injective {a b : UmariCliBuilds.ModuleType}
    (same : serverType a = serverType b) : a = b := by
  cases a <;> cases b <;> first | rfl | exact absurd same (by simp [serverType])

theorem turned_frame {stage : Stage} {next : Stage ⊕ Status} (apart : m.key ≠ i.key)
    (turned : Turned setting w m stage w' next) : Frame w w' i := by
  cases turned with
  | sent version bumped wasmBytes =>
    exact ⟨fun r member => List.mem_cons_of_mem _ member, fun row member => member,
      fun version active => active⟩
  | refused version wasmBytes bumped err server settings same =>
    refine ⟨fun r member => member, fun row member => ?_, fun version active => ?_⟩
    · rw [same]
      exact member
    · rw [same]
      exact active
  | saved version wasmBytes bumped status parsed server id parse saves =>
    obtain ⟨modules, actives⟩ := saves_keep saves
    refine ⟨fun r member => member, modules, fun version active => ?_⟩
    obtain ⟨a, live, row, there, rest⟩ := activeVersion_iff.mp active
    exact activeVersion_iff.mpr ⟨a, actives a live, row, modules row there, rest⟩
  | activated version wasmBytes bumped status parsed server environment answer finished =>
    obtain ⟨modules, active⟩ := finishRequest_keeps finished
    refine ⟨fun r member => member, fun row member => ?_, fun version now => ?_⟩
    · exact modules ▸ member
    · refine active _ _ _ (fun same => apart ?_) now
      exact Prod.ext (serverType_injective same.1) same.2
  | judged | bumps | rebuilt | failed =>
    exact ⟨fun r member => member, fun row member => member, fun version active => active⟩

theorem inPlace_frame (frame : Frame w w' i)
    (there : InPlace setting w.server.store i version wasmBytes) :
    InPlace setting w'.server.store i version wasmBytes := by
  obtain ⟨parsed, parse, stored, active⟩ := there
  exact ⟨parsed, parse, storedHash_grown frame.modules stored,
    fun asked => frame.active _ (active asked)⟩

theorem holds_frame (frame : Frame w w' i) {stage : Option Stage}
    (holds : Holds setting w i stage) : Holds setting w' i stage := by
  cases stage with
  | none => trivial
  | some stage =>
    cases stage with
    | sending version bumped => exact holds
    | saving version wasmBytes bumped => exact ⟨holds.1, frame.requests _ holds.2⟩
    | activating version wasmBytes bumped status parsed =>
      obtain ⟨own, sent, parse, stored⟩ := holds
      exact ⟨own, frame.requests _ sent, parse, storedHash_grown frame.modules stored⟩
    | answered version wasmBytes bumped answer =>
      obtain ⟨own, sent, there⟩ := holds
      exact ⟨own, frame.requests _ sent, fun done => inPlace_frame frame (there done)⟩
    | bumping => exact holds

theorem leaves_frame (frame : Frame w w' i) {status : Status}
    (leaves : Leaves setting w i status) : Leaves setting w' i status := by
  intro fine
  obtain ⟨wasmBytes, bumped, own, sent, there⟩ := leaves fine
  exact ⟨wasmBytes, bumped, own, frame.requests _ sent, inPlace_frame frame there⟩

theorem judge_fine {answer : Except ApiError (Nat × UploadResponse)} {status : Status}
    (own : Own setting m version bumped)
    (judges : judge setting m version bumped (clientAnswer answer) = some status)
    (fine : status.isFailed = false) :
    shownVersion m status = version ∧ ∃ done, answer = .ok done := by
  cases answer with
  | error err =>
    have failing : ∃ message, status = .failed message := by
      by_cases conflict : err.code = .duplicate
      · simp only [clientAnswer, conflict, if_true, judge] at judges
        split_ifs at judges
        · exact ⟨_, (Option.some.inj judges).symm⟩
        · exact ⟨_, (Option.some.inj judges).symm⟩
      · simp only [clientAnswer, conflict, if_false, judge] at judges
        exact ⟨_, (Option.some.inj judges).symm⟩
    obtain ⟨message, rfl⟩ := failing
    exact absurd fine (by simp [Status.isFailed])
  | ok done =>
    refine ⟨?_, done, rfl⟩
    simp only [clientAnswer, judge] at judges
    cases bumped with
    | true =>
      obtain rfl := Option.some.inj judges
      rfl
    | false =>
      have same : version = m.version := own
      simp only [Bool.false_eq_true, if_false, Option.some.injEq] at judges
      subst judges
      rw [same]
      split <;> rfl

theorem own_advances {stage next : Stage} (holds : Holds setting w m (some stage))
    (turned : Turned setting w m stage w' (.inl next)) : Holds setting w' m (some next) := by
  cases turned with
  | sent version bumped wasmBytes => exact ⟨holds, List.mem_cons_self⟩
  | refused version wasmBytes bumped err server =>
    exact ⟨holds.1, holds.2, fun done => absurd done (by simp)⟩
  | saved version wasmBytes bumped status parsed server id parse saves =>
    exact ⟨holds.1, holds.2, parse, saves_stored saves⟩
  | activated version wasmBytes bumped status parsed server environment answer finished =>
    obtain ⟨own, sent, parse, stored⟩ := holds
    refine ⟨own, sent, ?_⟩
    rintro ⟨done, rfl⟩
    refine ⟨parsed, parse, ?_, fun asked => ?_⟩
    · refine storedHash_grown (fun row member => ?_) stored
      exact (finishRequest_keeps finished).1 ▸ member
    · exact finishRequest_active finished (by simp [requestOf, asked])
  | bumps version wasmBytes bumped answer asked => exact asked
  | rebuilt new next => exact ⟨holds, next⟩

theorem own_finishes {stage : Stage} {status : Status} (holds : Holds setting w m (some stage))
    (turned : Turned setting w m stage w' (.inr status)) : Leaves setting w' m status := by
  intro fine
  cases turned with
  | judged version wasmBytes bumped answer status judges =>
    obtain ⟨own, sent, there⟩ := holds
    obtain ⟨shown, done⟩ := judge_fine own judges fine
    rw [shown]
    exact ⟨wasmBytes, bumped, own, sent, there done⟩
  | failed stage message => exact absurd fine (by simp [Status.isFailed])

def uploadOutline (setting : Setting) : Outline (uploadWork setting) where
  Apart := fun a b => a.key ≠ b.key
  symm := Ne.symm
  Inv := fun _ => True
  Holds := Holds setting
  Leaves := Leaves setting
  enters := fun _ _ => rfl
  advances := fun _ holds taken => ⟨trivial, own_advances holds (turned_of_step taken)⟩
  finishes := fun _ holds taken => ⟨trivial, own_finishes holds (turned_of_step taken)⟩
  calm := fun _ _ apart taken =>
    have frame := turned_frame apart (turned_of_step taken)
    ⟨fun _ => holds_frame frame, fun _ => leaves_frame frame⟩
  undisturbed := fun {_ event _} _ _ => event.elim

end outline

end UmariCliUploads
