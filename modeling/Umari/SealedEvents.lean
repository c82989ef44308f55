import Umari.CryptoKeys
import Umari.FallibleFolds
import Umari.JsonCodec
import Umari.ModuleActor
import Umari.Transactions

/-!
An event as one commit stores it, plain or under a key, and the three readers that
take it apart again: the command's batch, the handler's decryption and the UI's
decoder. Each reader asks the key store for a key of its own.
-/
namespace UmariSealedEvents
open FallibleFolds UmariEventStore UmariStoredEvents UmariTransactions UmariModuleActor
open UmariCryptoKeys UmariJsonCodec
variable {V : Type}

/-- The store's `Event::new` keeps the bytes it accepts. -/
def KeepsData (rules : NameRules) : Prop :=
  ∀ eventType tags data event, rules.event eventType tags data = .ok event → event.data = data

section encode
variable (codec : Codec V) (rules : NameRules)

/-- One round of the encoding loop of `transaction_commit`. -/
def encodeEvent (createKey : String → Except String (Uuid × CryptoKey)) (envelope : EventEnvelope)
    (cryptoKeys : List (String × Uuid × CryptoKey)) (pending : PendingEvent V) :
    Except TransactionError (List (String × Uuid × CryptoKey) × Event) :=
  match pending.encryptionScope with
  | none => do
    let event ← (rules.event pending.eventType pending.tags
      (encodeWithEnvelope codec envelope pending.eventId pending.data none none)).mapError
        TransactionError.event
    pure (cryptoKeys, event)
  | some scope => do
    let key ← match cryptoKeys.lookup scope with
      | some key => pure key
      | none => (createKey scope).mapError TransactionError.message
    let value ← encryptEventData codec key.2 pending.eventId pending.data
    let event ← (rules.event pending.eventType pending.tags
      (encodeWithEnvelope codec envelope pending.eventId value (some scope)
        (some key.1))).mapError TransactionError.event
    pure ((scope, key) :: cryptoKeys, event)

theorem dcbEvents_cons (createKey : String → Except String (Uuid × CryptoKey))
    (envelope : EventEnvelope) (cryptoKeys : List (String × Uuid × CryptoKey))
    (pending : PendingEvent V) (rest : List (PendingEvent V)) :
    dcbEvents codec rules createKey envelope cryptoKeys (pending :: rest) =
      (encodeEvent codec rules createKey envelope cryptoKeys pending >>= fun encoded =>
        (encoded.2 :: ·) <$> dcbEvents codec rules createKey envelope encoded.1 rest) := by
  rw [dcbEvents, encodeEvent]
  cases pending.encryptionScope with
  | none => simp only [bind_assoc, pure_bind, map_eq_pure_bind]
  | some scope =>
    cases found : cryptoKeys.lookup scope with
    | none => simp only [found, bind_assoc, pure_bind, map_eq_pure_bind]
    | some key => simp only [found, bind_assoc, pure_bind, map_eq_pure_bind]

end encode

/-- How an event is stored for a pending one; a scoped one under the key it was given. -/
inductive StoredAs (codec : Codec V) (envelope : EventEnvelope) (pending : PendingEvent V) :
    Option (Uuid × CryptoKey) → Event → Prop where
  | plain (event : Event) (unscoped : pending.encryptionScope = none)
      (stored : event.data =
        encodeWithEnvelope codec envelope pending.eventId pending.data none none) :
      StoredAs codec envelope pending none event
  | encrypted (event : Event) (scope : String) (key : Uuid × CryptoKey) (value : V)
      (underScope : pending.encryptionScope = some scope)
      (sealed : encryptEventData codec key.2 pending.eventId pending.data = .ok value)
      (stored : event.data =
        encodeWithEnvelope codec envelope pending.eventId value (some scope) (some key.1)) :
      StoredAs codec envelope pending (some key) event

inductive EventData (V : Type) where
  | plain (value : V)
  | decrypted (value : V)
  | cryptoShredded
deriving DecidableEq, Repr

def EventData.intoValue (codec : Codec V) : EventData V → V
  | .plain value => value
  | .decrypted value => value
  | .cryptoShredded => codec.null

namespace EventDecode

/-- The UI asks by key identifier, or by scope for an event that names no key. -/
def decryptEventData (codec : Codec V) (byId : Uuid → Except String (Option CryptoKey))
    (byScope : String → Except String (Option (Uuid × CryptoKey)))
    (stored : StoredEventData V) (uuid : Option Uuid) : EventData V :=
  match stored.encryptionScope with
  | none => .plain stored.data
  | some scope =>
    let key := match stored.encryptionKeyId with
      | some keyId => (byId keyId).toOption.join
      | none => (byScope scope).toOption.join.map (·.2)
    match key with
    | none => .cryptoShredded
    | some key =>
      let decrypted : Option (EventData V) := do
        let hexStr ← codec.asStr stored.data
        let ciphertext ← (codec.hexDecode hexStr).toOption
        let uuid ← uuid
        let plaintext ← (codec.decrypt key (nonceOf uuid) ciphertext).toOption
        let value ← (codec.fromSlice plaintext).toOption
        pure (.decrypted value)
      decrypted.getD .cryptoShredded

end EventDecode

section readers
variable (codec : Codec V) (keys : CryptoKeys)

def answerById (id : Uuid) : Except String (Option CryptoKey) := .ok (getCryptoKeyById keys id)

def readByCommand (entry : Nat × Event) : Except TransactionError String :=
  (batchEntry codec (answerById keys) entry).map (·.data)

def readByHandler (entry : Nat × Event) : Except ModuleError V :=
  (deserializeEvent codec entry).map fun stored =>
    (decryptStoredEvent codec (match stored.encryptionKeyId with
      | some keyId => answerById keys keyId
      | none => .ok none) stored).data

def readByUi (event : Event) : Except String (EventData V) :=
  (codec.storedFromSlice event.data).map fun stored =>
    EventDecode.decryptEventData codec (answerById keys)
      (fun scope => .ok (getCryptoKey keys scope)) stored (some stored.eventId)

structure ReadsAs (event : Event) (data : EventData V) : Prop where
  command : ∀ position,
    readByCommand codec keys (position, event) = .ok (codec.toString (data.intoValue codec))
  handler : ∀ position, readByHandler codec keys (position, event) = .ok (data.intoValue codec)
  ui : readByUi codec keys event = .ok data

end readers

section reads
variable {codec : Codec V} {reread : V → V} {nesting : V → Nat} {limit : Nat}
  {envelope : EventEnvelope} {pending : PendingEvent V} {event : Event} {keys : CryptoKeys}

theorem envelope_record (codec : Codec V) (envelope : EventEnvelope) (id : Uuid) (data : V)
    (scope : Option String) (keyId : Option Uuid) :
    ∃ record, encodeWithEnvelope codec envelope id data scope keyId = codec.storedToVec record ∧
      record.eventId = id ∧ record.encryptionScope = scope ∧ record.encryptionKeyId = keyId ∧
        record.data = data := ⟨_, rfl, rfl, rfl, rfl, rfl⟩

theorem stored_record (rereads : Rereads codec reread nesting limit) {data : V}
    (shallow : nesting data < limit) {scope : Option String} {keyId : Option Uuid}
    (stored : event.data = encodeWithEnvelope codec envelope pending.eventId data scope keyId) :
    ∃ record, codec.storedFromSlice event.data = .ok record ∧ record.eventId = pending.eventId ∧
      record.encryptionScope = scope ∧ record.encryptionKeyId = keyId ∧
        record.data = reread data := by
  obtain ⟨record, written, id, underScope, named, rfl⟩ :=
    envelope_record codec envelope pending.eventId data scope keyId
  refine ⟨{ record with data := reread record.data }, ?_, id, underScope, named, rfl⟩
  rw [stored, written]
  exact rereads.record record shallow

theorem reads_plain (rereads : Rereads codec reread nesting limit)
    (shallow : nesting pending.data < limit)
    (stored : StoredAs codec envelope pending none event) :
    ReadsAs codec keys event (.plain (reread pending.data)) := by
  cases stored with
  | plain _ unscoped written =>
    obtain ⟨record, parsed, _, scope, keyId, data⟩ := stored_record rereads shallow written
    constructor
    · intro position
      simp [readByCommand, batchEntry, parsed, decryptEventData, keyId, data, Except.mapError, bind,
        Except.bind, pure, Except.pure, Except.map, EventData.intoValue]
    · intro position
      simp [readByHandler, deserializeEvent, parsed, decryptStoredEvent, keyId, data, Except.map,
        EventData.intoValue]
    · simp [readByUi, parsed, EventDecode.decryptEventData, scope, data, Except.map]

theorem ciphertext_flat (rereads : Rereads codec reread nesting limit) {key : CryptoKey}
    {ciphertext : V}
    (encrypted : encryptEventData codec key pending.eventId pending.data = .ok ciphertext) :
    nesting ciphertext < limit := by
  unfold encryptEventData at encrypted
  cases sealed : codec.encrypt key (nonceOf pending.eventId) (codec.toVec pending.data) with
  | error err => simp [sealed] at encrypted
  | ok bytes =>
    simp only [sealed, Except.ok.injEq] at encrypted
    subst encrypted
    exact rereads.flat bytes

theorem sealed_opens (rereads : Rereads codec reread nesting limit)
    (within : nesting pending.data ≤ limit)
    {key : CryptoKey} {ciphertext : V}
    (encrypted : encryptEventData codec key pending.eventId pending.data = .ok ciphertext) :
    decryptEventDataBytes codec key pending.eventId (reread ciphertext) =
        .ok (reread pending.data) ∧
      decryptPayload codec key pending.eventId (reread ciphertext) =
        some (reread pending.data) := by
  unfold encryptEventData at encrypted
  cases sealed : codec.encrypt key (nonceOf pending.eventId) (codec.toVec pending.data) with
  | error err => simp [sealed] at encrypted
  | ok bytes =>
    simp only [sealed, Except.ok.injEq] at encrypted
    subst encrypted
    have opened := rereads.cipher _ _ _ _ sealed
    constructor
    · simp [decryptEventDataBytes, rereads.text, rereads.hex, opened, rereads.value _ within]
    · simp [decryptPayload, rereads.text, rereads.hex, opened, rereads.value _ within,
        Except.toOption]

theorem ui_decrypts {byId : Uuid → Except String (Option CryptoKey)}
    {byScope : String → Except String (Option (Uuid × CryptoKey))} {stored : StoredEventData V}
    {scope : String} {keyId id : Uuid} {key : CryptoKey}
    (underScope : stored.encryptionScope = some scope)
    (named : stored.encryptionKeyId = some keyId) (found : byId keyId = .ok (some key)) :
    EventDecode.decryptEventData codec byId byScope stored (some id) =
      ((decryptPayload codec key id stored.data).map .decrypted).getD .cryptoShredded := by
  have answered : (Except.ok (some key) : Except String (Option CryptoKey)).toOption.join =
      some key := rfl
  simp only [EventDecode.decryptEventData, underScope, named, found, answered, decryptPayload, bind,
    pure, Option.bind_some, Option.bind_assoc, Function.comp_def, Option.map_eq_bind]

theorem reads_live (rereads : Rereads codec reread nesting limit)
    (within : nesting pending.data ≤ limit)
    {key : Uuid × CryptoKey} (stored : StoredAs codec envelope pending (some key) event)
    (live : getCryptoKeyById keys key.1 = some key.2) :
    ReadsAs codec keys event (.decrypted (reread pending.data)) := by
  cases stored with
  | encrypted _ scope key ciphertext underScope encrypted written =>
    obtain ⟨record, parsed, id, scope, keyId, data⟩ :=
      stored_record rereads (ciphertext_flat rereads encrypted) written
    obtain ⟨strict, lenient⟩ := sealed_opens rereads within encrypted
    constructor
    · intro position
      simp [readByCommand, batchEntry, parsed, decryptEventData, answerById, keyId, live, id, data,
        strict, Except.mapError, bind, Except.bind, pure, Except.pure, Except.map,
        EventData.intoValue]
    · intro position
      simp [readByHandler, deserializeEvent, parsed, decryptStoredEvent, answerById, keyId, live,
        id, data, lenient, Except.map, Except.toOption, EventData.intoValue]
    · have found : answerById keys key.1 = .ok (some key.2) := congrArg Except.ok live
      rw [readByUi, parsed, Except.map, ui_decrypts scope keyId found, id, data, lenient]
      rfl

theorem reads_deleted (rereads : Rereads codec reread nesting limit)
    {key : Uuid × CryptoKey} (stored : StoredAs codec envelope pending (some key) event)
    (gone : getCryptoKeyById keys key.1 = none) :
    ReadsAs codec keys event .cryptoShredded := by
  cases stored with
  | encrypted _ scope key ciphertext underScope encrypted written =>
    obtain ⟨record, parsed, id, scope, keyId, data⟩ :=
      stored_record rereads (ciphertext_flat rereads encrypted) written
    constructor
    · intro position
      simp [readByCommand, batchEntry, parsed, decryptEventData, answerById, keyId, gone,
        Except.mapError, bind, Except.bind, pure, Except.pure, Except.map, EventData.intoValue]
    · intro position
      simp [readByHandler, deserializeEvent, parsed, decryptStoredEvent, answerById, keyId, gone,
        Except.map, Except.toOption, EventData.intoValue]
    · simp [readByUi, parsed, EventDecode.decryptEventData, scope, keyId, answerById, gone,
        Except.map, Except.toOption]

end reads

section commit
variable {codec : Codec V} {rules : NameRules}
  {createKey : String → Except String (Uuid × CryptoKey)} {envelope : EventEnvelope}

/-- The key one round took for its event: the cached one of the scope, or a new answer. -/
def KeyTaken (createKey : String → Except String (Uuid × CryptoKey))
    (cryptoKeys : List (String × Uuid × CryptoKey)) (scope : String) (key : Uuid × CryptoKey) :
    Prop :=
  cryptoKeys.lookup scope = some key ∨
    (cryptoKeys.lookup scope = none ∧ createKey scope = .ok key)

theorem encodeEvent_cases {cryptoKeys cached : List (String × Uuid × CryptoKey)}
    {pending : PendingEvent V} {event : Event}
    (encoded : encodeEvent codec rules createKey envelope cryptoKeys pending =
      .ok (cached, event)) :
    (cached = cryptoKeys ∧ pending.encryptionScope = none ∧
      rules.event pending.eventType pending.tags
        (encodeWithEnvelope codec envelope pending.eventId pending.data none none) = .ok event) ∨
    ∃ scope key value, cached = (scope, key) :: cryptoKeys ∧
      pending.encryptionScope = some scope ∧ KeyTaken createKey cryptoKeys scope key ∧
      encryptEventData codec key.2 pending.eventId pending.data = .ok value ∧
      rules.event pending.eventType pending.tags (encodeWithEnvelope codec envelope
        pending.eventId value (some scope) (some key.1)) = .ok event := by
  unfold encodeEvent at encoded
  cases scope : pending.encryptionScope with
  | none =>
    simp only [scope] at encoded
    obtain ⟨stored, made, same⟩ := do_ok.mp encoded
    obtain ⟨rfl, rfl⟩ := Prod.mk.inj (Except.ok.inj same)
    exact Or.inl ⟨rfl, rfl, mapError_ok.mp made⟩
  | some scope' =>
    apply Or.inr
    have finish : ∀ key, KeyTaken createKey cryptoKeys scope' key →
        (do
          let value ← encryptEventData codec key.2 pending.eventId pending.data
          let event ← (rules.event pending.eventType pending.tags
            (encodeWithEnvelope codec envelope pending.eventId value (some scope')
              (some key.1))).mapError TransactionError.event
          pure ((scope', key) :: cryptoKeys, event)) = Except.ok (cached, event) →
        ∃ scope key value, cached = (scope, key) :: cryptoKeys ∧ some scope' = some scope ∧
          KeyTaken createKey cryptoKeys scope key ∧
          encryptEventData codec key.2 pending.eventId pending.data = .ok value ∧
          rules.event pending.eventType pending.tags (encodeWithEnvelope codec envelope
            pending.eventId value (some scope) (some key.1)) = .ok event := by
      intro key taken body
      obtain ⟨value, encrypted, body⟩ := do_ok.mp body
      obtain ⟨stored, made, same⟩ := do_ok.mp body
      obtain ⟨rfl, rfl⟩ := Prod.mk.inj (Except.ok.inj same)
      exact ⟨scope', key, value, rfl, rfl, taken, encrypted, mapError_ok.mp made⟩
    simp only [scope] at encoded
    cases found : cryptoKeys.lookup scope' with
    | some key =>
      simp only [found, pure_bind] at encoded
      exact finish key (Or.inl found) encoded
    | none =>
      simp only [found] at encoded
      obtain ⟨key, asked, body⟩ := do_ok.mp encoded
      exact finish key (Or.inr ⟨found, mapError_ok.mp asked⟩) body

theorem encodeEvent_ok (keeps : KeepsData rules)
    {cryptoKeys cached : List (String × Uuid × CryptoKey)} {pending : PendingEvent V}
    {event : Event} (encoded : encodeEvent codec rules createKey envelope cryptoKeys pending =
      .ok (cached, event)) :
    (cached = cryptoKeys ∧ pending.encryptionScope = none ∧
      StoredAs codec envelope pending none event) ∨
    ∃ scope key, cached = (scope, key) :: cryptoKeys ∧ pending.encryptionScope = some scope ∧
      KeyTaken createKey cryptoKeys scope key ∧
      StoredAs codec envelope pending (some key) event := by
  rcases encodeEvent_cases encoded with ⟨same, unscoped, made⟩ |
      ⟨scope, key, value, same, underScope, taken, encrypted, made⟩
  · exact Or.inl ⟨same, unscoped, StoredAs.plain _ unscoped (keeps _ _ _ _ made)⟩
  · apply Or.inr
    have stored := StoredAs.encrypted _ scope key value underScope encrypted (keeps _ _ _ _ made)
    exact ⟨scope, key, same, underScope, taken, stored⟩

theorem dcbEvents_stored (keeps : KeepsData rules)
    {cryptoKeys : List (String × Uuid × CryptoKey)} {pending : List (PendingEvent V)}
    {batch : List Event}
    (answered : ∀ scope key, cryptoKeys.lookup scope = some key → createKey scope = .ok key)
    (built : dcbEvents codec rules createKey envelope cryptoKeys pending = .ok batch) :
    List.Forall₂ (fun p event =>
      (p.encryptionScope = none ∧ StoredAs codec envelope p none event) ∨
      ∃ scope key, p.encryptionScope = some scope ∧ createKey scope = .ok key ∧
        StoredAs codec envelope p (some key) event) pending batch := by
  induction pending generalizing cryptoKeys batch with
  | nil =>
    cases built
    exact List.Forall₂.nil
  | cons p rest ih =>
    rw [dcbEvents_cons] at built
    obtain ⟨⟨cached, event⟩, encoded, later⟩ := do_ok.mp built
    obtain ⟨events, tail, rfl⟩ := map_ok.mp later
    rcases encodeEvent_ok keeps encoded with ⟨rfl, unscoped, stored⟩ |
        ⟨scope, key, rfl, underScope, taken, stored⟩
    · exact List.Forall₂.cons (Or.inl ⟨unscoped, stored⟩) (ih answered tail)
    · have asked : createKey scope = .ok key :=
        taken.elim (answered scope key) And.right
      apply List.Forall₂.cons
      · exact Or.inr ⟨scope, key, underScope, asked, stored⟩
      · apply ih _ tail
        intro other held found
        by_cases same : other = scope
        · subst same
          rw [List.lookup_cons_self] at found
          rw [asked, Option.some.inj found]
        · rw [List.lookup_cons, beq_eq_false_iff_ne.mpr same] at found
          exact answered other held found

end commit

/-- The requests the key store handled up to now, and which of them was the commit's own
    for each scope it asked for. -/
structure KeyHistory where
  start : CryptoKeys
  requests : List KeyRequest
  asked : String → Nat

namespace KeyHistory

def now (history : KeyHistory) : CryptoKeys := history.requests.foldl handleRequest history.start

def createKey (history : KeyHistory) (scope : String) : Except String (Uuid × CryptoKey) :=
  let before := history.requests.take (history.asked scope)
  match history.requests[history.asked scope]? with
  | some (.create other fresh) =>
    if other = scope then
      (createCryptoKey (before.foldl handleRequest history.start) scope fresh).map (·.2)
    else .error "no request"
  | _ => .error "no request"

def Deleted (history : KeyHistory) (scope : String) : Prop :=
  .delete scope ∈ history.requests.drop (history.asked scope + 1)

instance {history : KeyHistory} {scope : String} : Decidable (history.Deleted scope) :=
  inferInstanceAs (Decidable (_ ∈ _))

theorem key_now (history : KeyHistory) {scope : String} {key : Uuid × CryptoKey}
    (answered : history.createKey scope = .ok key) :
    getCryptoKeyById history.now key.1 = if history.Deleted scope then none else some key.2 := by
  unfold createKey at answered
  dsimp only at answered
  split at answered
  · rename_i other fresh found
    split at answered
    · rename_i same
      subst same
      have split : history.requests = history.requests.take (history.asked other) ++
          .create other fresh :: history.requests.drop (history.asked other + 1) := by
        obtain ⟨inside, here⟩ := List.getElem?_eq_some_iff.mp found
        rw [← here, List.getElem_cons_drop, List.take_append_drop]
      cases created : createCryptoKey ((history.requests.take (history.asked other)).foldl
          handleRequest history.start) other fresh with
      | error err => simp [created, Except.map] at answered
      | ok result =>
        obtain ⟨after, made⟩ := result
        obtain rfl : made = key := by simpa [created, Except.map] using answered
        have row := row_requests (createCryptoKey_ok created).1
          (history.requests.drop (history.asked other + 1))
        have reached : history.now =
            (history.requests.drop (history.asked other + 1)).foldl handleRequest after := by
          rw [now]
          conv => lhs; rw [split]
          rw [List.foldl_append, List.foldl_cons, handleRequest, created]
        rw [← reached] at row
        exact getCryptoKeyById_row row
    · exact absurd answered (by simp)
  · exact absurd answered (by simp)

end KeyHistory

def expectedData (history : KeyHistory) (v : V) : Option String → EventData V
  | none => .plain v
  | some scope => if history.Deleted scope then .cryptoShredded else .decrypted v

section roundTrip
variable {codec : Codec V} {rules : NameRules} {reread : V → V} {nesting : V → Nat} {limit : Nat}

theorem reads_expected (rereads : Rereads codec reread nesting limit) (history : KeyHistory)
    {envelope : EventEnvelope} {p : PendingEvent V} {event : Event}
    (within : nesting p.data ≤ limit)
    (shallow : p.encryptionScope = none → nesting p.data < limit)
    (stored : (p.encryptionScope = none ∧ StoredAs codec envelope p none event) ∨
      ∃ scope key, p.encryptionScope = some scope ∧ history.createKey scope = .ok key ∧
        StoredAs codec envelope p (some key) event) :
    ReadsAs codec history.now event (expectedData history (reread p.data) p.encryptionScope) := by
  rcases stored with ⟨unscoped, plain⟩ | ⟨scope, key, underScope, answered, encrypted⟩
  · rw [unscoped]
    exact reads_plain rereads (shallow unscoped) plain
  · have row := history.key_now answered
    rw [underScope, expectedData]
    by_cases deleted : history.Deleted scope
    · rw [if_pos deleted] at row ⊢
      exact reads_deleted rereads encrypted row
    · rw [if_neg deleted] at row ⊢
      exact reads_live rereads within encrypted row

structure ReadFrom (codec : Codec V) (rules : NameRules) (e : EmitEvent) (p : PendingEvent V) :
    Prop where
  id : codec.parseUuid e.id = some p.eventId
  eventType : rules.eventType e.eventType = .ok p.eventType
  tags : ∃ tagList, (e.tagStrings.mapM fun tag =>
    (rules.tag tag).mapError TransactionError.name) = .ok tagList ∧ rules.tags tagList = .ok p.tags
  data : codec.fromStr e.data = .ok p.data
  scope : p.encryptionScope = e.encryptionScope
  emitted : p.emitted = ⟨p.eventId, e.eventType, e.tagStrings⟩

theorem pendingEvent_ok {e : EmitEvent} {p : PendingEvent V}
    (made : pendingEvent codec rules e = .ok p) : ReadFrom codec rules e p := by
  unfold pendingEvent at made
  cases id : codec.parseUuid e.id with
  | none => simp [id, bind, Except.bind, throw, throwThe, MonadExceptOf.throw] at made
  | some eventId =>
    simp only [id, pure_bind] at made
    obtain ⟨eventType, typed, made⟩ := do_ok.mp made
    obtain ⟨tagList, tagged, made⟩ := do_ok.mp made
    obtain ⟨tags, collected, made⟩ := do_ok.mp made
    obtain ⟨data, parsed, made⟩ := do_ok.mp made
    obtain rfl := Except.ok.inj made
    exact {
      id := id
      eventType := mapError_ok.mp typed
      tags := ⟨tagList, tagged, mapError_ok.mp collected⟩
      data := mapError_ok.mp parsed
      scope := rfl
      emitted := rfl }

theorem batchToAppend_ok {createKey : String → Except String (Uuid × CryptoKey)}
    {envelope : EventEnvelope} {events : List EmitEvent} {batch : List Event}
    {emitted : List EmittedEvent}
    (built : batchToAppend codec rules createKey envelope events = .ok (batch, emitted)) :
    ∃ pending : List (PendingEvent V),
      List.Forall₂ (fun e p => pendingEvent codec rules e = .ok p) events pending ∧
        dcbEvents codec rules createKey envelope [] pending = .ok batch ∧
          emitted = pending.map (·.emitted) := by
  unfold batchToAppend at built
  obtain ⟨pending, parsed, built⟩ := do_ok.mp built
  obtain ⟨made, encoded, same⟩ := do_ok.mp built
  obtain ⟨rfl, rfl⟩ := Prod.mk.inj (Except.ok.inj same)
  exact ⟨pending, mapM_ok.mp parsed, encoded, rfl⟩

theorem committed_batch {createKey : String → Except String (Uuid × CryptoKey)}
    {log batch : List Event} {transactions transactions' : Transactions} {tx : Nat}
    {events : List EmitEvent} {envelope : EventEnvelope} {done : Committed}
    (committed : transactionCommit codec rules createKey log transactions tx events envelope =
      (transactions', .ok done)) (appended : done.log = log ++ batch) :
    batchToAppend codec rules createKey envelope events = .ok (batch, done.emitted) := by
  unfold transactionCommit at committed
  cases found : transactions.find tx with
  | none =>
    rw [found] at committed
    exact absurd (Prod.mk.inj committed).2 (by simp)
  | some item =>
    rw [found] at committed
    obtain ⟨⟨made, emitted⟩, built, body⟩ := do_ok.mp (Prod.mk.inj committed).2
    obtain ⟨⟨log', position⟩, stored, same⟩ := do_ok.mp body
    obtain rfl := Except.ok.inj same
    have grown := (appendBatch_ok stored).1
    rw [List.append_cancel_left (grown.symm.trans appended)] at built
    exact built

/-- Whatever was accepted, every reader later gives back the committed value of a plain
    event, and that of an encrypted one until the key it was given is deleted. -/
theorem committed_events_read_back (faithful : Faithful codec nesting limit)
    (keeps : KeepsData rules) (history : KeyHistory) {log batch : List Event}
    {transactions transactions' : Transactions} {tx : Nat} {events : List EmitEvent}
    {envelope : EventEnvelope} {done : Committed}
    (committed : transactionCommit codec rules history.createKey log transactions tx events
      envelope = (transactions', .ok done))
    (appended : done.log = log ++ batch)
    (shallow : ∀ e ∈ events, e.encryptionScope = none → ∀ v, codec.fromStr e.data = .ok v →
      nesting v < limit) :
    List.Forall₂ (fun e event => ∃ v, codec.fromStr e.data = .ok v ∧
      ReadsAs codec history.now event (expectedData history v e.encryptionScope)) events batch := by
  have built := committed_batch committed appended
  obtain ⟨pending, parsed, encoded, _⟩ := batchToAppend_ok built
  have stored := dcbEvents_stored keeps (fun scope key found => absurd found (by simp)) encoded
  apply forall₂_through _ parsed stored
  intro e member p event _ made kept
  obtain ⟨_, _, _, value, scope, _⟩ := pendingEvent_ok made
  refine ⟨p.data, value, ?_⟩
  rw [← scope]
  apply reads_expected faithful history (faithful.parsed _ _ value) _ kept
  exact fun plain => shallow e member (scope ▸ plain) p.data value

end roundTrip

section sample

def adaMessage : Sealing where
  key := 7
  nonce := 0
  plaintext := [34, 97, 100, 97, 34]
  ciphertext := [0xbb, 0x4b, 0x87, 0x48, 0x9d, 0xa7, 0x32, 0xdb, 0x00, 0x78, 0xe5, 0xd3, 0x5a, 0x4e,
    0xb9, 0x9d, 0x89, 0x93, 0x9d, 0x17, 0x35]

def adaRecord : StoredEventData String :=
  ⟨1, 0, 2, 3, none, none, some "user:1", some 9, "\"bb4b87489da732db0078e5d35a4eb99d89939d1735\""⟩

def adaCodec : Codec String := jsonCodec [adaRecord, plainRecord] [1, 4] adaMessage

def adaEnvelope : EventEnvelope := ⟨0, 2, 3, none, none⟩

def idText (id : Uuid) : String := asciiText (uuidBytes id)

def plainEmit : EmitEvent := ⟨idText 4, "Registered", "\x7b\x7d", [], none⟩

def adaEmit : EmitEvent := ⟨idText 1, "Registered", "\"ada\"", [], some "user:1"⟩

def adaBatch : List Event :=
  [⟨"Registered", [], recordBytes plainRecord⟩, ⟨"Registered", [], recordBytes adaRecord⟩]

def openRead : Transactions := [some ⟨.all, some ⟨[], 0⟩⟩]

def askedFirst (later : List KeyRequest) : KeyHistory :=
  ⟨noKeys, .create "user:1" (9, 7) :: later, fun scope => if scope = "user:1" then 0 else 1⟩

theorem adaCodec_faithful : Faithful adaCodec nesting maxNesting :=
  jsonCodec_faithful (by decide +kernel)

theorem plainNames_keep : KeepsData plainNames := by
  intro eventType tags data event made
  cases made
  rfl

def adaCommit (history : KeyHistory) : Transactions × Except TransactionError Committed :=
  transactionCommit adaCodec plainNames history.createKey [] openRead 0 [plainEmit, adaEmit]
    adaEnvelope

theorem done_of_log {ended : Transactions × Except TransactionError Committed}
    {log : List Event} (seen : ended.2.toOption.map (·.log) = some log) :
    ∃ done, ended = (ended.1, .ok done) ∧ done.log = log := by
  obtain ⟨done, result, grown⟩ := Option.map_eq_some_iff.mp seen
  exact ⟨done, by rw [← toOption_ok.mp result], grown⟩

theorem adaCommit_done (history : KeyHistory)
    (seen : (adaCommit history).2.toOption.map (·.log) = some adaBatch) :
    ∃ transactions' done, adaCommit history = (transactions', .ok done) ∧
      done.log = [] ++ adaBatch := by
  obtain ⟨done, run, log⟩ := done_of_log seen
  exact ⟨(adaCommit history).1, done, run, log⟩

theorem ada_shallow : ∀ e ∈ [plainEmit, adaEmit], e.encryptionScope = none →
    ∀ v, adaCodec.fromStr e.data = .ok v → nesting v < maxNesting := by
  have parsed : ∀ e ∈ [plainEmit, adaEmit], adaCodec.fromStr e.data = .ok e.data ∧
    nesting e.data < maxNesting := by decide +kernel
  intro e member _ v found
  obtain ⟨same, shallow⟩ := parsed e member
  obtain rfl := Except.ok.inj (same.symm.trans found)
  exact shallow

def adaShredded : KeyHistory := askedFirst [.delete "user:1", .create "user:1" (10, 8)]

/-- A plain event and one under a scope, read while the key is live and after it was
    deleted and replaced. -/
theorem ada_reads_back :
    List.Forall₂ (fun e event => ∃ v, adaCodec.fromStr e.data = .ok v ∧
        ReadsAs adaCodec (askedFirst []).now event
          (expectedData (askedFirst []) v e.encryptionScope)) [plainEmit, adaEmit] adaBatch ∧
      List.Forall₂ (fun e event => ∃ v, adaCodec.fromStr e.data = .ok v ∧
        ReadsAs adaCodec adaShredded.now event
          (expectedData adaShredded v e.encryptionScope)) [plainEmit, adaEmit] adaBatch ∧
      getCryptoKey adaShredded.now "user:1" = some (10, 8) := by
  obtain ⟨_, _, live, liveLog⟩ := adaCommit_done (askedFirst []) (by decide +kernel)
  obtain ⟨_, _, gone, goneLog⟩ := adaCommit_done adaShredded (by decide +kernel)
  refine ⟨?_, ?_, by decide +kernel⟩
  · exact committed_events_read_back adaCodec_faithful plainNames_keep _ live liveLog ada_shallow
  · exact committed_events_read_back adaCodec_faithful plainNames_keep _ gone goneLog ada_shallow

end sample

end UmariSealedEvents
