import Umari.ActivationErrors
import Umari.Folds
import Umari.SavedModules

/-!
The upload of a module: the multipart form, the save, the activation that may follow, and
the answer. A version that is stored already with an equal hash is answered as a success;
the save behind that answer was rolled back, its variables included.
-/
namespace UmariUploads
open FallibleFolds GuardedRuns KeyedMaps UniqueTables UmariStateDatabases UmariModuleEvents
open UmariModuleStore UmariSavedModules UmariActivationErrors
open UmariFolds (stripPrefix)
open UmariPublishedModules (ModuleStoreActor)
open UmariByteIntegrity (found_version loadModule_checked)

inductive ErrorCode where
  | invalidInput
  | duplicate
  | notFound
  | database
  | integrity
  | internal
deriving DecidableEq, Repr

structure ApiError where
  code : ErrorCode
  message : String
deriving DecidableEq, Repr

structure Texts where
  parseVersion : String → Option Version
  versionText : Version → String
  toUppercase : String → String
  sendError : String

def moduleTypeText : ModuleType → String
  | .command => "command"
  | .projector => "projector"
  | .effect => "effect"

def errorCode : ModuleStoreError → ErrorCode
  | .database _ => .database
  | .integrity _ => .integrity
  | .invalidName _ => .invalidInput
  | .invalidCryptoKey _ => .integrity
  | .moduleAlreadyExists => .duplicate
  | .moduleExistsWithSameHash => .duplicate
  | .moduleNotFound _ _ _ => .notFound
  | .cannotDeleteActiveVersion _ _ _ => .invalidInput
  | .modulePubSubSendError => .internal

def errorText (texts : Texts) : ModuleStoreError → String
  | .database message => "database error: " ++ message
  | .integrity message => "integrity error: " ++ message
  | .invalidName name => "invalid module name '" ++ name ++ "': module names must be snake case"
  | .invalidCryptoKey scope => "invalid crypto key for scope '" ++ scope ++ "'"
  | .moduleAlreadyExists => "module already exists"
  | .moduleExistsWithSameHash => "module already exists with the same hash"
  | .moduleNotFound moduleType name version => "module not found: " ++ moduleTypeText moduleType ++
      "/" ++ name ++ "/" ++ texts.versionText version
  | .cannotDeleteActiveVersion moduleType name version => "cannot delete active version: " ++
      moduleTypeText moduleType ++ "/" ++ name ++ "/" ++ texts.versionText version
  | .modulePubSubSendError => "module pubsub error: " ++ texts.sendError

def storeError (texts : Texts) (err : ModuleStoreError) : ApiError :=
  ⟨errorCode err, errorText texts err⟩

def invalidInput (message : String) : ApiError := ⟨.invalidInput, message⟩

/-- A part of the form; its body may fail to be read. -/
structure Field where
  name : Option String
  bytes : Option (List UInt8)
  text : Option String
deriving DecidableEq, Repr

structure Form where
  envVars : KeyedMap String String
  wasmBytes : Option (List UInt8)

def stripSuffix (ending text : String) : Option String :=
  if ending.toList.isSuffixOf text.toList then
    some (String.ofList (text.toList.take (text.toList.length - ending.toList.length)))
  else none

/-- The body of the form's loop for one part; `none` is a part that cannot be read. -/
def readField (texts : Texts) (form : Form) : Option Field → Except ApiError Form
  | none => .error (invalidInput "failed to read multipart field")
  | some field =>
    match field.name with
    | none => .error (invalidInput "missing field name")
    | some name =>
      if name = "wasm" then
        match field.bytes with
        | none => .error (invalidInput "failed to read wasm bytes")
        | some bytes => .ok { form with wasmBytes := some bytes }
      else
        match stripPrefix "env[" name with
        -- unknown fields are ignored
        | none => .ok form
        | some tail =>
          match stripSuffix "]" tail with
          | none => .error (invalidInput "invalid env var field")
          | some envName =>
            match field.text with
            | none => .error (invalidInput "failed to read env var value")
            | some value =>
              .ok { form with envVars := form.envVars.insert (texts.toUppercase envName) value }

structure Request where
  moduleType : ModuleType
  name : String
  version : String
  activate : Bool
  fields : List (Option Field)

structure Parsed where
  version : Version
  envVars : KeyedMap String String
  wasmBytes : List UInt8

def parseRequest (texts : Texts) (request : Request) : Except ApiError Parsed :=
  match texts.parseVersion request.version with
  | none => .error (invalidInput "invalid semver version")
  | some version => do
    let form ← request.fields.foldlM (readField texts) ⟨∅, none⟩
    match form.wasmBytes with
    | none => .error (invalidInput "missing wasm field")
    | some wasmBytes => .ok ⟨version, form.envVars, wasmBytes⟩

/-- What the environment decides for one request: the failing statements, the rowid, and
    the text of a message that does not reach the store actor. -/
structure Environment where
  saveLost : Option String
  saveFails : Failures
  id : Int
  activateLost : Option String
  activateFails : Failures
  sendFails : Bool

structure UploadResponse where
  moduleType : String
  name : String
  version : String
  sha256 : String
  activated : Bool
deriving DecidableEq, Repr

section upload
variable (texts : Texts) (digest : List UInt8 → String)

def pairs (envVars : KeyedMap String String) : List (String × String) :=
  envVars.entries.map fun entry => (entry.1, entry.2)

def activateIfAsked (s : ModuleStoreActor) (request : Request) (environment : Environment)
    (version : Version) : ModuleStoreActor × Except ApiError Unit :=
  if request.activate then
    match environment.activateLost with
    | some text => (s, .error ⟨.internal, text⟩)
    | none =>
      let (s, activated) := activateModule digest environment.sendFails environment.activateFails s
        request.moduleType request.name version
      (s, activated.mapError (storeError texts))
  else (s, .ok ())

def uploadModule (s : ModuleStoreActor) (request : Request) (environment : Environment) :
    ModuleStoreActor × Except ApiError (Nat × UploadResponse) :=
  match parseRequest texts request with
  | .error err => (s, .error err)
  | .ok parsed =>
    match environment.saveLost with
    | some text => (s, .error ⟨.internal, text⟩)
    | none =>
      let (store, saved) := saveModule digest s.store environment.saveFails request.moduleType
        request.name parsed.version environment.id (pairs parsed.envVars) parsed.wasmBytes
      let s := { s with store := store }
      let answer (status : Nat) : ModuleStoreActor × Except ApiError (Nat × UploadResponse) :=
        let (s, activated) := activateIfAsked texts digest s request environment parsed.version
        (s, activated.map fun _ => (status, {
          moduleType := moduleTypeText request.moduleType
          name := request.name
          version := texts.versionText parsed.version
          sha256 := digest parsed.wasmBytes
          activated := request.activate }))
      match saved with
      | .ok () => answer 201
      | .error .moduleExistsWithSameHash => answer 200
      | .error err => (s, .error (storeError texts err))

def getEnvVars (store : Store) (moduleType : ModuleType) (name : String) : List (String × String) :=
  (store.envVars.rows.filter (EnvVarRow.isNamed moduleType name)).map fun e => (e.key, e.value)

end upload

section carried
variable (texts : Texts)

def envVar : Option Field → Option (String × String)
  | none => none
  | some field => do
    let name ← field.name
    let tail ← stripPrefix "env[" name
    let envName ← stripSuffix "]" tail
    let value ← field.text
    some (texts.toUppercase envName, value)

/-- The value the request carries for a variable; of several parts for it the last counts. -/
def carriedEnv : List (Option Field) → String → Option String
  | [], _ => none
  | field :: rest, key => (carriedEnv rest key).or
      ((envVar texts field).bind fun entry => if entry.1 = key then some entry.2 else none)

def carriedWasm : List (Option Field) → Option (List UInt8)
  | [] => none
  | field :: rest => (carriedWasm rest).or
      (field.bind fun field => if field.name = some "wasm" then field.bytes else none)

variable {texts}

theorem readField_carried {form form' : Form} {field : Option Field}
    (read : readField texts form field = .ok form') :
    (∀ key, form'.envVars.lookup key = ((envVar texts field).bind fun entry =>
      if entry.1 = key then some entry.2 else none).or (form.envVars.lookup key)) ∧
    form'.wasmBytes = (field.bind fun field =>
      if field.name = some "wasm" then field.bytes else none).or form.wasmBytes := by
  cases field with
  | none => exact absurd read (by simp [readField])
  | some field =>
    obtain ⟨label, bytes, text⟩ := field
    cases label with
    | none => exact absurd read (by simp [readField])
    | some name =>
      by_cases wasm : name = "wasm"
      · subst wasm
        have other : stripPrefix "env[" "wasm" = none := by decide
        cases bytes with
        | none => exact absurd read (by simp [readField])
        | some bytes =>
          obtain rfl : { form with wasmBytes := some bytes } = form' := by
            simpa [readField] using read
          simp [envVar, other]
      · cases stripped : stripPrefix "env[" name with
        | none =>
          obtain rfl : form = form' := by simpa [readField, wasm, stripped] using read
          simp [envVar, stripped, wasm]
        | some tail =>
          cases ended : stripSuffix "]" tail with
          | none => exact absurd read (by simp [readField, wasm, stripped, ended])
          | some envName =>
            cases text with
            | none => exact absurd read (by simp [readField, wasm, stripped, ended])
            | some value =>
              obtain rfl : { form with
                  envVars := form.envVars.insert (texts.toUppercase envName) value } = form' := by
                simpa [readField, wasm, stripped, ended] using read
              constructor
              · intro key
                by_cases same : texts.toUppercase envName = key
                · subst same
                  simp [envVar, stripped, ended]
                · simp [envVar, stripped, ended, same, AList.lookup_insert_ne (Ne.symm same)]
              · simp [wasm]

theorem readFields_carried {fields : List (Option Field)} {form form' : Form}
    (read : fields.foldlM (readField texts) form = .ok form') :
    (∀ key, form'.envVars.lookup key =
      (carriedEnv texts fields key).or (form.envVars.lookup key)) ∧
    form'.wasmBytes = (carriedWasm fields).or form.wasmBytes := by
  induction fields generalizing form with
  | nil =>
    cases read
    exact ⟨fun _ => rfl, rfl⟩
  | cons field rest ih =>
    rw [List.foldlM_cons] at read
    obtain ⟨next, here, later⟩ := do_ok.mp read
    obtain ⟨envHere, wasmHere⟩ := readField_carried here
    obtain ⟨envLater, wasmLater⟩ := ih later
    constructor
    · intro key
      rw [envLater, envHere, carriedEnv, Option.or_assoc]
    · rw [wasmLater, wasmHere, carriedWasm, Option.or_assoc]

theorem parseRequest_carried {request : Request} {parsed : Parsed}
    (read : parseRequest texts request = .ok parsed) :
    texts.parseVersion request.version = some parsed.version ∧
      carriedWasm request.fields = some parsed.wasmBytes ∧
      ∀ key, parsed.envVars.lookup key = carriedEnv texts request.fields key := by
  unfold parseRequest at read
  cases version : texts.parseVersion request.version with
  | none => simp [version] at read
  | some version' =>
    simp only [version] at read
    obtain ⟨form, fields, rest⟩ := do_ok.mp read
    obtain ⟨env, wasm⟩ := readFields_carried fields
    cases found : form.wasmBytes with
    | none => simp [found] at rest
    | some wasmBytes =>
      simp only [found, Except.ok.injEq] at rest
      subst rest
      refine ⟨rfl, ?_, ?_⟩
      · rw [← found, wasm, Option.or_none]
      · intro key
        rw [env]
        exact Option.or_none

theorem assigned_entries {key : String} : ∀ {entries : List (Sigma fun _ : String => String)},
    entries.NodupKeys →
      assigned (entries.map fun entry => (entry.1, entry.2)) key = entries.dlookup key := by
  intro entries distinct
  induction entries with
  | nil => rfl
  | cons entry rest ih =>
    obtain ⟨name, value⟩ := entry
    obtain ⟨fresh, tail⟩ := List.nodupKeys_cons.mp distinct
    rw [List.map_cons, assigned, ih tail]
    by_cases same : name = key
    · subst same
      rw [List.dlookup_eq_none.mpr fresh, if_pos rfl, List.dlookup_cons_eq]
      rfl
    · rw [if_neg same, Option.or_none, List.dlookup_cons_ne _ _ (Ne.symm same)]

theorem mem_pairs {envVars : KeyedMap String String} {entry : String × String} :
    entry ∈ pairs envVars ↔ envVars.lookup entry.1 = some entry.2 := by
  rw [pairs, List.mem_map, ← mem_entries]
  constructor
  · rintro ⟨stored, member, rfl⟩
    exact member
  · exact fun member => ⟨_, member, rfl⟩

theorem assigned_pairs (envVars : KeyedMap String String) (key : String) :
    assigned (pairs envVars) key = envVars.lookup key := assigned_entries envVars.nodupKeys

end carried

structure Upload where
  request : Request
  environment : Environment

section effects
variable (texts : Texts) (digest : List UInt8 → String)

def after (s : ModuleStoreActor) (upload : Upload) : ModuleStoreActor :=
  (uploadModule texts digest s upload.request upload.environment).1

def step (s : ModuleStoreActor) (upload : Upload) : Option ModuleStoreActor :=
  some (after texts digest s upload)

/-- The request is answered with 200 or 201. -/
def Succeeds (s : ModuleStoreActor) (upload : Upload) : Prop :=
  ∃ status response, (status = 200 ∨ status = 201) ∧
    (uploadModule texts digest s upload.request upload.environment).2 = .ok (status, response)

structure InEffect (store : Store) (request : Request) : Prop where
  bytes : ∀ version wasmBytes, texts.parseVersion request.version = some version →
    carriedWasm request.fields = some wasmBytes →
      loadModule digest store request.moduleType request.name version false =
        .ok (some (wasmBytes, digest wasmBytes))
  env : ∀ key value, carriedEnv texts request.fields key = some value →
    (key, value) ∈ getEnvVars store request.moduleType request.name

def TakesEffect (s : ModuleStoreActor) (upload : Upload) : Prop :=
  Succeeds texts digest s upload →
    InEffect texts digest (after texts digest s upload).store upload.request ∧
      ∀ environment, SameRows (after texts digest s upload).store
        (after texts digest (after texts digest s upload) ⟨upload.request, environment⟩).store

/-- The version of the request is not stored, or it is stored with the bytes of the request
    while the variables have the values of the request. -/
def NewOrSame (store : Store) (request : Request) : Prop :=
  ∀ version m, texts.parseVersion request.version = some version →
    store.modules.find (ModuleRow.isVersion request.moduleType request.name version) = some m →
      carriedWasm request.fields = some m.wasmBytes ∧
      ∀ key value, carriedEnv texts request.fields key = some value →
        (key, value) ∈ getEnvVars store request.moduleType request.name

variable {texts digest} {s : ModuleStoreActor} {request : Request} {environment : Environment}
  {version : Version}

theorem mem_getEnvVars {store : Store} {moduleType : ModuleType} {name key value : String} :
    (key, value) ∈ getEnvVars store moduleType name ↔
      (⟨moduleType, name, key, value⟩ : EnvVarRow) ∈ store.envVars := by
  unfold getEnvVars
  constructor
  · intro listed
    obtain ⟨row, member, same⟩ := List.mem_map.mp listed
    obtain ⟨there, own⟩ := List.mem_filter.mp member
    obtain ⟨ty, owner, rowKey, rowValue⟩ := row
    simp only [EnvVarRow.isNamed, Bool.and_eq_true, decide_eq_true_eq] at own
    obtain ⟨rfl, rfl⟩ := own
    obtain ⟨rfl, rfl⟩ := Prod.mk.inj same
    exact there
  · intro member
    refine List.mem_map.mpr ⟨_, List.mem_filter.mpr ⟨member, ?_⟩, rfl⟩
    simp [EnvVarRow.isNamed]

theorem activateIfAsked_store (texts : Texts) (digest : List UInt8 → String) (s : ModuleStoreActor)
    (request : Request) (environment : Environment) (version : Version) :
    ((activateIfAsked texts digest s request environment version).1.store = s.store ∧
      ((activateIfAsked texts digest s request environment version).2 = .ok () →
        request.activate = false)) ∨
    (request.activate = true ∧ ∃ m, s.store.modules.find
        (ModuleRow.isVersion request.moduleType request.name version) = some m ∧
      (activateIfAsked texts digest s request environment version).1.store =
        { s.store with activeModules :=
          s.store.activeModules.replace ⟨request.moduleType, request.name, m.id⟩ }) := by
  unfold activateIfAsked
  cases asked : request.activate with
  | false =>
    rw [if_neg Bool.noConfusion]
    exact Or.inl ⟨rfl, fun _ => rfl⟩
  | true =>
    rw [if_pos rfl]
    cases environment.activateLost with
    | some text => exact Or.inl ⟨rfl, fun done => absurd done (by simp)⟩
    | none =>
      dsimp only
      by_cases commits : Commits s.store environment.activateFails request.moduleType request.name
          version
      · obtain ⟨m, found, store⟩ := activateModule_committed commits
        exact Or.inr ⟨rfl, m, found, store⟩
      · obtain ⟨err, unchanged⟩ := activateModule_uncommitted commits
        rw [unchanged]
        exact Or.inl ⟨rfl, fun done => absurd done (by simp [Except.mapError])⟩

inductive Saves (digest : List UInt8 → String) (before : Store) (request : Request) (id : Int)
    (parsed : Parsed) : Store → Prop where
  | fresh (modules : Table ModuleRow.Clash)
      (inserted : before.modules.insert (newRow digest request.moduleType request.name
        parsed.version id parsed.wasmBytes) = some modules) :
      Saves digest before request id parsed { before with
        modules := modules
        envVars := writeAll request.moduleType request.name (pairs parsed.envVars) before.envVars }
  | duplicate (stored : storedHash before request.moduleType request.name parsed.version =
      some (digest parsed.wasmBytes)) : Saves digest before request id parsed before

/-- The store a save that fails leaves: as it was, or with the first of its variables, where
    the failure of the insert has rolled the transaction back. -/
inductive Leftover (before : Store) (request : Request) (parsed : Parsed) : Store → Prop
  | kept : Leftover before request parsed before
  | undone (written : List (String × String)) (some_of : written <+: pairs parsed.envVars) :
    Leftover before request parsed { before with
      envVars := writeAll request.moduleType request.name written before.envVars }

/-- How an upload goes: it fails and leaves variables at most, or its save stored the version
    or found the same hash, and the activation decides the rest. -/
theorem upload_cases (s : ModuleStoreActor) (upload : Upload) :
    (((after texts digest s upload).store = s.store ∨ ∃ parsed,
        parseRequest texts upload.request = .ok parsed ∧
        Leftover s.store upload.request parsed (after texts digest s upload).store) ∧
      ¬ Succeeds texts digest s upload) ∨
    ∃ parsed store, parseRequest texts upload.request = .ok parsed ∧
      Saves digest s.store upload.request upload.environment.id parsed store ∧
      (after texts digest s upload).store = (activateIfAsked texts digest { s with store := store }
        upload.request upload.environment parsed.version).1.store ∧
      (Succeeds texts digest s upload → (activateIfAsked texts digest { s with store := store }
        upload.request upload.environment parsed.version).2 = .ok ()) := by
  unfold after Succeeds uploadModule
  cases parsing : parseRequest texts upload.request with
  | error err => exact Or.inl ⟨Or.inl rfl, by simp⟩
  | ok parsed =>
    dsimp only
    cases upload.environment.saveLost with
    | some text => exact Or.inl ⟨Or.inl rfl, by simp⟩
    | none =>
      dsimp only
      have outcome : Outcome digest s.store upload.environment.saveFails upload.request.moduleType
          upload.request.name parsed.version upload.environment.id (pairs parsed.envVars)
          parsed.wasmBytes (saveModule digest s.store upload.environment.saveFails
            upload.request.moduleType upload.request.name parsed.version upload.environment.id
            (pairs parsed.envVars) parsed.wasmBytes) := saveModule_outcome
      generalize saveModule digest s.store upload.environment.saveFails upload.request.moduleType
        upload.request.name parsed.version upload.environment.id (pairs parsed.envVars)
        parsed.wasmBytes = saved at outcome ⊢
      have finished : ∀ store (status : Nat) (response : UploadResponse),
          (∃ status' response', (status' = 200 ∨ status' = 201) ∧
            (activateIfAsked texts digest { s with store := store } upload.request
              upload.environment parsed.version).2.map (fun _ => (status, response)) =
                .ok (status', response')) →
          (activateIfAsked texts digest { s with store := store } upload.request
            upload.environment parsed.version).2 = .ok () := by
        intro store status response answered
        obtain ⟨_, _, _, answered⟩ := answered
        exact (mapped_ok.mp answered).choose_spec.1
      cases outcome with
      | saved modules inserted =>
        exact Or.inr ⟨parsed, _, rfl, Saves.fresh modules inserted, rfl, finished _ _ _⟩
      | sameHash _ _ stored =>
        exact Or.inr ⟨parsed, _, rfl, Saves.duplicate stored, rfl, finished _ _ _⟩
      | failed err other =>
        cases err with
        | moduleExistsWithSameHash => exact absurd rfl other
        | _ => exact Or.inl ⟨Or.inr ⟨parsed, rfl, .kept⟩, by simp⟩
      | undone err other =>
        have left : Leftover s.store upload.request parsed _ := Leftover.undone _
          (writtenVars_first upload.environment.saveFails 4 (pairs parsed.envVars))
        cases err with
        | moduleExistsWithSameHash => exact absurd rfl other
        | _ => exact Or.inl ⟨Or.inr ⟨parsed, rfl, left⟩, by simp⟩

theorem inEffect_congr {a b : Store} (modules : a.modules = b.modules)
    (envVars : a.envVars = b.envVars) :
    InEffect texts digest a request ↔ InEffect texts digest b request := by
  have loads : ∀ moduleType name version, loadModule digest a moduleType name version false =
      loadModule digest b moduleType name version false := by
    intro moduleType name version
    unfold loadModule
    rw [modules]
  have vars : ∀ moduleType name, getEnvVars a moduleType name = getEnvVars b moduleType name := by
    intro moduleType name
    unfold getEnvVars
    rw [envVars]
  constructor
  · intro effect
    constructor
    · intro version wasmBytes parsed carried
      rw [← loads]
      exact effect.bytes version wasmBytes parsed carried
    · intro key value carried
      rw [← vars]
      exact effect.env key value carried
  · intro effect
    constructor
    · intro version wasmBytes parsed carried
      rw [loads]
      exact effect.bytes version wasmBytes parsed carried
    · intro key value carried
      rw [vars]
      exact effect.env key value carried

theorem activated_tables :
    (activateIfAsked texts digest s request environment version).1.store.modules =
        s.store.modules ∧
      (activateIfAsked texts digest s request environment version).1.store.envVars =
        s.store.envVars := by
  rcases activateIfAsked_store texts digest s request environment version with
      ⟨same, _⟩ | ⟨_, m, _, set⟩
  · rw [same]
    exact ⟨rfl, rfl⟩
  · rw [set]
    exact ⟨rfl, rfl⟩

theorem fresh_inEffect {before : Store} {id : Int} {parsed : Parsed}
    (parse : parseRequest texts request = .ok parsed) {modules : Table ModuleRow.Clash}
    (inserted : before.modules.insert (newRow digest request.moduleType request.name
      parsed.version id parsed.wasmBytes) = some modules) :
    InEffect texts digest { before with
      modules := modules
      envVars := writeAll request.moduleType request.name (pairs parsed.envVars) before.envVars }
      request := by
  obtain ⟨version, wasm, env⟩ := parseRequest_carried parse
  constructor
  · intro version' wasmBytes parsedVersion carried
    obtain rfl := Option.some.inj (version.symm.trans parsedVersion)
    obtain rfl := Option.some.inj (wasm.symm.trans carried)
    have row : modules.find (ModuleRow.isVersion request.moduleType request.name parsed.version) =
        some (newRow digest request.moduleType request.name parsed.version id
          parsed.wasmBytes) := by
      apply found_version.mpr
      exact ⟨((Table.insert_some inserted).1 _).mpr (Or.inr rfl), rfl, rfl, rfl⟩
    have whole : (newRow digest request.moduleType request.name parsed.version id
      parsed.wasmBytes).sha256 = digest (newRow digest request.moduleType request.name
        parsed.version id parsed.wasmBytes).wasmBytes := rfl
    exact loadModule_whole _ row whole
  · intro key value carried
    apply mem_getEnvVars.mpr
    apply mem_writeAll.mpr
    refine Or.inl ⟨rfl, rfl, ?_⟩
    rw [assigned_pairs, env]
    exact carried

theorem duplicate_inEffect_iff {before : Store} {parsed : Parsed}
    (parse : parseRequest texts request = .ok parsed)
    (stored : storedHash before request.moduleType request.name parsed.version =
      some (digest parsed.wasmBytes)) :
    InEffect texts digest before request ↔ NewOrSame texts before request := by
  obtain ⟨version, wasm, env⟩ := parseRequest_carried parse
  obtain ⟨m, found, hash⟩ := Option.map_eq_some_iff.mp stored
  constructor
  · intro effect version' other parsedVersion otherFound
    obtain rfl := Option.some.inj (version.symm.trans parsedVersion)
    obtain rfl := Option.some.inj (found.symm.trans otherFound)
    refine ⟨?_, effect.env⟩
    obtain ⟨row, here, bytes, _⟩ := loadModule_checked (effect.bytes _ _ version wasm)
    obtain rfl := Option.some.inj (found.symm.trans here)
    rw [wasm, bytes]
  · intro same
    obtain ⟨carried, vars⟩ := same _ m version found
    have bytes : parsed.wasmBytes = m.wasmBytes := Option.some.inj (wasm.symm.trans carried)
    refine ⟨?_, vars⟩
    intro version' wasmBytes parsedVersion carriedBytes
    obtain rfl := Option.some.inj (version.symm.trans parsedVersion)
    obtain rfl := Option.some.inj (wasm.symm.trans carriedBytes)
    have whole : m.sha256 = digest m.wasmBytes := by rw [hash, bytes]
    rw [← hash, bytes]
    exact loadModule_whole _ found whole

theorem inEffect_iff {upload : Upload} (success : Succeeds texts digest s upload) :
    InEffect texts digest (after texts digest s upload).store upload.request ↔
      NewOrSame texts s.store upload.request := by
  rcases upload_cases s upload with ⟨_, failed⟩ | ⟨parsed, store, parse, saves, result, _⟩
  · exact absurd success failed
  · rw [result, inEffect_congr activated_tables.1 activated_tables.2]
    cases saves with
    | fresh modules inserted =>
      constructor
      · intro _ version m parsedVersion found
        obtain ⟨version', _, _⟩ := parseRequest_carried parse
        obtain rfl := Option.some.inj (version'.symm.trans parsedVersion)
        rw [unstored_of_inserted inserted] at found
        exact absurd found (by simp)
      · exact fun _ => fresh_inEffect parse inserted
    | duplicate stored => exact duplicate_inEffect_iff parse stored

theorem success_stored {upload : Upload} (success : Succeeds texts digest s upload) :
    ∃ parsed m, parseRequest texts upload.request = .ok parsed ∧
      (after texts digest s upload).store.modules.find (ModuleRow.isVersion
        upload.request.moduleType upload.request.name parsed.version) = some m ∧
      (upload.request.activate = true → (⟨upload.request.moduleType, upload.request.name, m.id⟩ :
        ActiveRow) ∈ (after texts digest s upload).store.activeModules) := by
  rcases upload_cases s upload with ⟨_, failed⟩ | ⟨parsed, store, parse, saves, result, done⟩
  · exact absurd success failed
  · have stored : ∃ m, store.modules.find (ModuleRow.isVersion upload.request.moduleType
        upload.request.name parsed.version) = some m := by
      cases saves with
      | fresh modules inserted =>
        have member := ((Table.insert_some inserted).1 _).mpr (Or.inr rfl)
        exact ⟨_, found_version.mpr ⟨member, rfl, rfl, rfl⟩⟩
      | duplicate same =>
        obtain ⟨m, found, _⟩ := Option.map_eq_some_iff.mp same
        exact ⟨m, found⟩
    obtain ⟨m, found⟩ := stored
    refine ⟨parsed, m, parse, ?_, ?_⟩
    · rw [result, activated_tables.1]
      exact found
    · intro asked
      rw [result]
      rcases activateIfAsked_store texts digest _ upload.request upload.environment
          parsed.version with ⟨_, unasked⟩ | ⟨_, other, otherFound, set⟩
      · exact absurd (asked.symm.trans (unasked (done success))) (by simp)
      · obtain rfl := Option.some.inj (found.symm.trans otherFound)
        rw [set]
        exact Table.mem_replace.mpr (Or.inr rfl)

theorem leftover_same_rows {before after : Store} {parsed : Parsed}
    (effect : InEffect texts digest before request)
    (parse : parseRequest texts request = .ok parsed)
    (left : Leftover before request parsed after) : SameRows before after := by
  cases left with
  | kept => exact .refl before
  | undone written some_of =>
    refine ⟨rfl, fun _ => Iff.rfl, writeAll_same.mpr fun key value given => ?_, rfl⟩
    have listed := some_of.subset (assigned_mem given)
    apply mem_getEnvVars.mp
    apply effect.env
    rw [← (parseRequest_carried parse).2.2]
    exact mem_pairs.mp listed

theorem repeated_same_rows {upload : Upload} (success : Succeeds texts digest s upload)
    (effect : InEffect texts digest (after texts digest s upload).store upload.request)
    (environment : Environment) :
    SameRows (after texts digest s upload).store
      (after texts digest (after texts digest s upload) ⟨upload.request, environment⟩).store := by
  obtain ⟨parsed, m, parse, found, active⟩ := success_stored success
  generalize after texts digest s upload = first at found active effect ⊢
  rcases upload_cases first ⟨upload.request, environment⟩ with
      ⟨same | ⟨again, parseAgain, left⟩, _⟩ | ⟨again, store, parseAgain, saves, result, _⟩
  · rw [same]
    exact .refl _
  · exact leftover_same_rows effect parseAgain left
  · obtain rfl := Except.ok.inj (parse.symm.trans parseAgain)
    rw [result]
    cases saves with
    | fresh modules inserted =>
      rw [unstored_of_inserted inserted] at found
      exact absurd found (by simp)
    | duplicate stored =>
      rcases activateIfAsked_store texts digest _ upload.request environment parsed.version with
          ⟨same, _⟩ | ⟨asked, other, otherFound, set⟩
      · rw [same]
        exact .refl _
      · obtain rfl := Option.some.inj (found.symm.trans otherFound)
        rw [set]
        exact ⟨rfl, fun _ => Table.mem_replace_present (active asked), fun _ => Iff.rfl, rfl⟩

theorem takesEffect_iff {upload : Upload} :
    TakesEffect texts digest s upload ↔
      (Succeeds texts digest s upload → NewOrSame texts s.store upload.request) := by
  constructor
  · intro effect success
    exact (inEffect_iff success).mp (effect success).1
  · intro same success
    have effect := (inEffect_iff success).mpr (same success)
    exact ⟨effect, repeated_same_rows success effect⟩

end effects

/-- In every run of uploads from every store, the successful requests take effect exactly
    when each of them was for a new version, or for one stored with the same bytes and
    variables. -/
theorem uploads_take_effect_iff (texts : Texts) (digest : List UInt8 → String)
    (s : ModuleStoreActor) (uploads : List Upload) :
    Meets (step texts digest) (TakesEffect texts digest) s uploads ↔
      Meets (step texts digest) (fun s upload =>
        Succeeds texts digest s upload → NewOrSame texts s.store upload.request) s uploads :=
  meets_congr (fun _ _ => takesEffect_iff) s uploads

section sample

def sampleTexts : Texts where
  parseVersion := fun text => if text = "1.0.0" then some (release 1 0 0) else none
  versionText := fun _ => "1.0.0"
  toUppercase := String.toUpper
  sendError := "actor not running"

/-- `hello` 1.0.0 with the one byte 0 and a variable, in two parts of a form. -/
def hello (mode : String) : Upload where
  request := {
    moduleType := .command
    name := "hello"
    version := "1.0.0"
    activate := false
    fields := [some ⟨some "wasm", some [0], some "\x00"⟩,
      some ⟨some "env[mode]", some mode.toUTF8.data.toList, some mode⟩] }
  environment := ⟨none, .never, 1, none, .never, false⟩

def emptyActor : ModuleStoreActor := ⟨init, []⟩

/-- The second upload is answered with 200, and the variable keeps its old value. -/
theorem changed_variable_lost :
    (uploadModule sampleTexts zeroDigest (after sampleTexts zeroDigest emptyActor (hello "fast"))
        (hello "slow").request (hello "slow").environment).2 =
      .ok (200, ⟨"command", "hello", "1.0.0", zeroDigest [0], false⟩) ∧
    getEnvVars (after sampleTexts zeroDigest (after sampleTexts zeroDigest emptyActor
        (hello "fast")) (hello "slow")).store .command "hello" = [("MODE", "fast")] ∧
    ¬ Meets (step sampleTexts zeroDigest) (TakesEffect sampleTexts zeroDigest) emptyActor
      [hello "fast", hello "slow"] := by
  have answer : (uploadModule sampleTexts zeroDigest
      (after sampleTexts zeroDigest emptyActor (hello "fast")) (hello "slow").request
      (hello "slow").environment).2 =
        .ok (200, ⟨"command", "hello", "1.0.0", zeroDigest [0], false⟩) := by decide +kernel
  have kept : getEnvVars (after sampleTexts zeroDigest (after sampleTexts zeroDigest emptyActor
      (hello "fast")) (hello "slow")).store .command "hello" = [("MODE", "fast")] := by
    decide +kernel
  have carried : carriedEnv sampleTexts (hello "slow").request.fields "MODE" = some "slow" := by
    decide +kernel
  refine ⟨answer, kept, ?_⟩
  intro met
  have second : TakesEffect sampleTexts zeroDigest
      (after sampleTexts zeroDigest emptyActor (hello "fast")) (hello "slow") := met.2.1
  have listed := (second ⟨200, _, Or.inl rfl, answer⟩).1.env "MODE" "slow" carried
  have lost : ("MODE", "slow") ∉ getEnvVars (after sampleTexts zeroDigest
      (after sampleTexts zeroDigest emptyActor (hello "fast")) (hello "slow")).store .command
        "hello" := by
    rw [kept]
    decide
  exact lost listed

end sample

end UmariUploads
